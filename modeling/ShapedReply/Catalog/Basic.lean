import ShapedReply.Schema.Basic
import ShapedReply.Table

/-!
# Catalogs

A catalog holds named enums and classes, in the order of their declaration, and the names that may
be extended while the program runs. Declarations are only ever appended, and the first one of a
value or a property stands: an enum remembers which values it has seen, and a class keeps its
properties under their names.

What is known under a name is its `Definition`: an enum of the declared values with their other
spellings, or an object that requires the properties that are not optional.
-/

namespace ShapedReply

/-- A value of an enum. -/
structure EnumValue where
  /-- The value. -/
  value : String
  /-- Another spelling of it. -/
  spelling : Option String := none
  /-- What it stands for. -/
  description : Option String := none
  deriving DecidableEq

/-- A property of a class. -/
structure ClassProperty where
  /-- The name of the property. -/
  name : String
  /-- The shape of its values. -/
  schema : Schema
  /-- What it is for. -/
  description : Option Value := none
  /-- Another spelling of its name. -/
  spelling : Option String := none

/-- A text unless it is missing or empty. -/
def nonEmpty? : Option String → Option String
  | some s => if s = "" then none else some s
  | none => none

namespace EnumValue

/-- The other spellings of values, each with its value. -/
def spellings (values : List EnumValue) : Table String :=
  Table.ofList (values.filterMap fun v => (nonEmpty? v.spelling).map fun s => (s, v.value))

/-- The enum of declared values. -/
def define (values : List EnumValue) : Definition :=
  .enum (values.map (·.value)) (spellings values)

end EnumValue

namespace ClassProperty

/-- The descriptions of properties; void ones do not count. -/
def descriptions (properties : List ClassProperty) : Table Value :=
  properties.filterMap fun p => (p.description.filter fun d => !d.isVoid).map fun d => (p.name, d)

/-- The object of declared properties. -/
def define (properties : List ClassProperty) : Definition :=
  .object (properties.map fun p => (p.name, p.schema))
    ((properties.filter fun p => !p.schema.isOptional).map (·.name))
    (descriptions properties)

end ClassProperty

/-- An enum that can grow. -/
structure EnumEntry where
  /-- The name of the enum. -/
  name : String
  /-- Its values, in the order of their declaration. -/
  values : List EnumValue := []
  /-- The values that have been declared. -/
  seen : List String := []

namespace EnumEntry

/-- Appends a value unless it has been seen. -/
def add (e : EnumEntry) (v : EnumValue) : EnumEntry :=
  if e.seen.contains v.value then e
  else { e with values := e.values ++ [v], seen := v.value :: e.seen }

/-- What is known about an enum. -/
def define (e : EnumEntry) : Definition :=
  EnumValue.define e.values

end EnumEntry

/-- A class that can grow. -/
structure ClassEntry where
  /-- The name of the class. -/
  name : String
  /-- Its properties under their names, in the order of their declaration. -/
  properties : Table ClassProperty := []

namespace ClassEntry

/-- Appends a property unless one of that name is there. -/
def add (e : ClassEntry) (p : ClassProperty) : ClassEntry :=
  if e.properties.has p.name then e
  else { e with properties := e.properties.put p.name p }

/-- The declared properties. -/
def declared (e : ClassEntry) : List ClassProperty :=
  e.properties.map (·.2)

/-- What is known about a class. -/
def define (e : ClassEntry) : Definition :=
  ClassProperty.define e.declared

end ClassEntry

/-- Named enums and classes. -/
structure Catalog where
  /-- The enums by name. -/
  enums : Table EnumEntry := []
  /-- The classes by name. -/
  classes : Table ClassEntry := []
  /-- The names that may be extended while the program runs. -/
  dynamic : List String := []

namespace Catalog

/-- Everything that is defined: the enums, then the classes. -/
def definitions (c : Catalog) : Table Definition :=
  c.enums.mapEntries EnumEntry.define ++ c.classes.mapEntries ClassEntry.define

/-- What is known under a name. -/
def resolve (c : Catalog) : Resolver :=
  Table.get? c.definitions

/-- Whether a name is declared. -/
def has (c : Catalog) (name : String) : Bool :=
  c.enums.has name || c.classes.has name

/-- The declared names in the order of their code points. -/
def names (c : Catalog) : List String :=
  (c.enums.names ++ c.classes.names).mergeSort fun a b => decide (a ≤ b)

/-- The class of a name. -/
def findClass? (c : Catalog) (name : String) : Option Definition :=
  (c.classes.get? name).map ClassEntry.define

/-- The enum of a name, if it has values. -/
def findEnum? (c : Catalog) (name : String) : Option Definition :=
  ((c.enums.get? name).filter fun e => !e.values.isEmpty).map EnumEntry.define

/-- The values of every enum. -/
def enumValues (c : Catalog) : Table (List String) :=
  c.enums.mapEntries fun e => e.values.map (·.value)

end Catalog

end ShapedReply
