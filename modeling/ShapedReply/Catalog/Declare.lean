import ShapedReply.Catalog.Basic
import ShapedReply.Schema.ClassSource

/-!
# Declaring things in a catalog

The actions that change a catalog. An action that fails leaves the catalog as far as it came: what
it declared before the failure stays. That holds also where the failure comes from outside, from a
class that is asked for its document or from a source that values are taken from.

Marked names only may be extended through the `extend` actions; `openEnum` and `openClass` ask for
no mark.
-/

namespace ShapedReply

/-- Why a catalog refuses an action. -/
inductive CatalogError where
  /-- The name is that of a class. -/
  | isClass (name : String)
  /-- The name is that of an enum. -/
  | isEnum (name : String)
  /-- Schemas of this kind have no place in a catalog. -/
  | notRegistrable (kind : String)
  /-- The name is not marked as one that may be extended. -/
  | notDynamic (name : String)
  /-- Nothing is known under the name. -/
  | notFound (name : String)
  /-- The class says nothing from which a schema could be derived. -/
  | undescribed
  /-- A schema document cannot be read, or a schema cannot be written. -/
  | schema (reason : SchemaError)
  /-- A class, or a source of values or properties, fails for a reason of its own. -/
  | foreign (reason : String)

/-- The wording of a refusal, where there is one. -/
def CatalogError.message? : CatalogError → Option String
  | .isClass name => some ("'" ++ name ++ "' is already registered as a class")
  | .isEnum name => some ("'" ++ name ++ "' is already registered as an enum")
  | .notRegistrable kind => some ("Only enum and object schemas can be registered, got " ++ kind)
  | .notDynamic name => some ("Type '" ++ name ++ "' is not marked dynamic. Register it with "
      ++ "register_dynamic_type('" ++ name ++ "') or set is_dynamic = True on its "
      ++ "class before extending it at runtime.")
  | .notFound name => some ("Schema '" ++ name ++ "' is not registered")
  | .undescribed => none
  | .schema reason => reason.message?
  | .foreign reason => some reason

/-- What comes one after the other from outside: items, until there are no more or the source
fails. -/
structure Supply (α : Type) where
  /-- The items that are delivered. -/
  items : List α
  /-- Why the source fails behind them, if it does. -/
  failure : Option String := none

namespace Catalog

/-- An action on a catalog: it answers or fails, and leaves a catalog either way. -/
abbrev Action := ExceptT CatalogError (StateM Catalog)

/-! ## Opening and adding -/

/-- Makes sure that an enum of this name is there. -/
def openEnum (name : String) : Action Unit := do
  let c ← get
  if c.classes.has name then throw (.isClass name)
  if !c.enums.has name then set { c with enums := c.enums.put name { name } }

/-- Makes sure that a class of this name is there. -/
def openClass (name : String) : Action Unit := do
  let c ← get
  if c.enums.has name then throw (.isEnum name)
  if !c.classes.has name then set { c with classes := c.classes.put name { name } }

/-- A catalog with a value appended to an enum that it holds. -/
def withValue (c : Catalog) (name : String) (v : EnumValue) : Catalog :=
  { c with enums := c.enums.modify name (·.add v) }

/-- A catalog with a property appended to a class that it holds. -/
def withProperty (c : Catalog) (name : String) (p : ClassProperty) : Catalog :=
  { c with classes := c.classes.modify name (·.add p) }

/-- A catalog with a name marked as one that may be extended. -/
def withDynamic (c : Catalog) (name : String) : Catalog :=
  if c.dynamic.contains name then c else { c with dynamic := c.dynamic ++ [name] }

/-- Opens an enum and appends values. -/
def addValues (name : String) (values : List EnumValue) : Action Unit := do
  openEnum name
  modify fun c => values.foldl (fun c v => c.withValue name v) c

/-- Opens a class and appends properties. -/
def addProperties (name : String) (properties : List ClassProperty) : Action Unit := do
  openClass name
  modify fun c => properties.foldl (fun c p => c.withProperty name p) c

/-! ## Registering schemas -/

/-- The values of an enum schema, each with the last of its other spellings. -/
def valuesOf (values : List String) (aliases : Table String) : List EnumValue :=
  values.map fun v => { value := v, spelling := (aliases.reverse.find? (·.2 == v)).map (·.1) }

/-- The properties of an object schema; one that is not required becomes optional. -/
def propertiesOf (properties : Table Schema) (required : List String)
    (descriptions : Table Value) : List ClassProperty :=
  properties.map fun p =>
    { name := p.1
      schema := if required.contains p.1 || p.2.isOptional then p.2 else .optional p.2
      description := descriptions.get? p.1 }

/-- Registers an enum or an object under a name. -/
def register (name : String) : Schema → Action Unit
  | .enum values aliases => addValues name (valuesOf values aliases)
  | .object properties required _ descriptions =>
    addProperties name (propertiesOf properties required descriptions)
  | s => throw (.notRegistrable s.kindName)

/-- Reads a schema document. -/
def readDocument (document : Value) : Action Schema :=
  match Schema.ofDocument document with
  | .ok s => return s
  | .error e => throw (.schema e)

/-- Registers the schema of a document, which has to be a table. -/
def registerDocument (name : String) (document : Value) : Action Unit :=
  match document with
  | .map _ => do register name (← readDocument document)
  | _ => throw (.schema .notTable)

/-- Registers the definitions of a document that are enums or objects, and answers with their
names. -/
def ingestAll : Table Value → Action (List String)
  | [] => return []
  | (name, document) :: rest => do
    let s ← readDocument document
    let known := match s with
      | .enum .. | .object .. => true
      | _ => false
    if known then register name s
    let names ← ingestAll rest
    return if known then name :: names else names

/-- Where a document keeps its definitions: under the newer name unless nothing is there, then under
the older one. -/
def definitionsOf (entries : Table Value) : Value :=
  match entries.get? "$defs" with
  | some v => if v.isVoid then (entries.get? "definitions").getD (.map []) else v
  | none => (entries.get? "definitions").getD (.map [])

/-- Registers the definitions of a document. -/
def ingest (document : Value) : Action (List String) :=
  match document with
  | .map entries => match definitionsOf entries with
    | .map definitions => ingestAll definitions
    | _ => throw (.schema .notTable)
  | _ => throw (.schema .notTable)

/-! ## Classes -/

/-- The refusal of a class that has no schema. -/
def refusalOf : DescribeError → CatalogError
  | .undescribed => .undescribed
  | .unreadable reason => .schema reason
  | .failed reason => .foreign reason

/-- The schema of a class. -/
def describe (t : ClassSource) : Action Schema :=
  match t.describe with
  | .ok s => return s
  | .error e => throw (refusalOf e)

/-- Marks a name as one that may be extended. -/
def markDynamic (name : String) : Action Unit :=
  modify fun c => c.withDynamic name

/-- Marks a class, if it says that it may be extended. -/
def markClass (t : ClassSource) : Action Unit :=
  if t.dynamic then markDynamic t.name else return ()

/-- Takes in the definitions of the document of a class, if it has one. -/
def ingestOf (t : ClassSource) : Action Unit :=
  match t.document with
  | .ok (some document) => do let _ ← ingest document
  | .ok none => return ()
  | .error reason => throw (.foreign reason)

/-- Registers a class with the definitions of its document, and answers with its name. -/
def registerClass (t : ClassSource) : Action String := do
  ingestOf t
  register t.name (← describe t)
  markClass t
  return t.name

/-- Fails unless a name is marked. -/
def requireDynamic (name : String) : Action Unit := do
  if !(← get).dynamic.contains name then throw (.notDynamic name)

/-- Opens the enum of a class that may be extended, with the values it declares. -/
def openEnumOf (t : ClassSource) : Action Unit := do
  markClass t
  requireDynamic t.name
  if !(← get).enums.has t.name then register t.name (← describe t)
  openEnum t.name

/-- Opens a class that may be extended, with the properties it declares. -/
def openClassOf (t : ClassSource) : Action Unit := do
  markClass t
  requireDynamic t.name
  if !(← get).classes.has t.name then
    let _ ← registerClass t
  openClass t.name

/-- Fails if a source has failed behind its items. -/
def finish {α : Type} (supply : Supply α) : Action Unit :=
  match supply.failure with
  | some reason => throw (.foreign reason)
  | none => return ()

/-- Appends the values of a source to an enum that may be extended. -/
def extendEnum (name : String) (values : Supply EnumValue) : Action Unit := do
  requireDynamic name
  addValues name values.items
  finish values

/-- Appends the properties of a source to a class that may be extended. -/
def extendClass (name : String) (properties : Supply ClassProperty) : Action Unit := do
  requireDynamic name
  addProperties name properties.items
  finish properties

end Catalog

end ShapedReply
