import ShapedReply.JsonSchema.Basic
import ShapedReply.Schema.Basic
import ShapedReply.Text.Word

/-!
# Reading JSON Schema documents

A document is read keyword by keyword into `Keywords`, in which every part that holds documents is
already read; `Keywords.toSchema` then decides which keyword counts. A part that fails to read
fails the whole document only when it is asked for. A document without any type information is an
external name.
-/

namespace ShapedReply

namespace JsonSchema

/-- The result of reading. -/
abbrev Reading := Except SchemaError Schema

/-- A property as read: its name, its description unless that is void, and its schema. -/
structure Property where
  /-- The name of the property. -/
  name : String
  /-- What the property is for. -/
  description : Option Value
  /-- The schema of the property. -/
  schema : Reading

/-- The keywords of a document that count. -/
structure Keywords where
  /-- The name that the document refers to. -/
  ref : Option Value := none
  /-- The only value. -/
  const : Option Value := none
  /-- The values to choose from. -/
  enum : Option Value := none
  /-- The shapes to choose from. -/
  anyOf : Option (Except SchemaError (List Schema)) := none
  /-- The shapes to choose exactly one from. -/
  oneOf : Option (Except SchemaError (List Schema)) := none
  /-- The shape that has to hold, when it is a single one. -/
  allOf : Option (Except SchemaError (Option Schema)) := none
  /-- The name or names of the type. -/
  type : Option Value := none
  /-- The shape of items, if it is a table. -/
  items : Option Reading := none
  /-- The properties, once they are known to be a table or void. -/
  properties : Option (Except SchemaError (List Property)) := none
  /-- The names of required properties. -/
  required : Option Value := none
  /-- The shape of undeclared keys, if it is a table. -/
  additional : Option Reading := none

/-! ## Names and literals -/

/-- The name that a reference points to: behind a known place, or behind the last slash. -/
def refName (ref : String) : String :=
  match definitionsPrefixes.find? fun p => p.toList.isPrefixOf ref.toList with
  | some place => String.ofList (ref.toList.drop place.length)
  | none => String.ofList (ref.toList.reverse.takeWhile (· != '/')).reverse

/-- A fixed value as a literal. -/
def literal (v : Value) : Reading :=
  match v with
  | .bool b => .ok (.literal (.bool b))
  | .int n => .ok (.literal (.int n))
  | .str s => .ok (.literal (.str s))
  | _ => .error (.unsupportedLiteral v)

/-- What a value is made of; a fault where there are no parts. -/
def iterate (v : Value) : Except SchemaError (List Value) :=
  match v.elements? with
  | some parts => .ok parts
  | none => .error .notSearchable

/-- Whether a value is a string. -/
def isText (v : Value) : Bool := v.kind == .string

/-- The strings of a list of values. -/
def texts (vs : List Value) : List String :=
  vs.filterMap fun
    | .str s => some s
    | _ => none

/-- The schema of an enumeration: an enum when it holds strings only and claims no other type,
literals otherwise, with null at the end if it is among the values. -/
def enumeration (values : List Value) (type : Option Value) : Reading := do
  let plain := match type with
    | none | some .null => true
    | some (.str name) => name == "string"
    | some _ => false
  if plain && values.all isText then return .enum (texts values) []
  let literals ← (values.filter fun v => v.kind != .null).mapM literal
  let members := literals ++ (if values.any fun v => v.kind == .null then [.null] else [])
  match members with
  | [only] => return only
  | _ => return .anyOf members

/-- Whether a schema is the null schema. -/
def isNull : Schema → Bool
  | .null => true
  | _ => false

/-- The schema of a choice: null among the members makes it optional. -/
def choice (members : List Schema) : Schema :=
  let others := members.filter fun s => !isNull s
  if others.length = members.length then .anyOf members
  else match others with
    | [] => .null
    | [only] => .optional only
    | _ => .optional (.anyOf others)

/-- The names of a `required` keyword that are properties. A list or a table among them cannot be
looked up. -/
def requiredNames (properties : List Property) : List Value → Except SchemaError (List String)
  | [] => .ok []
  | v :: rest => do
    match v with
    | .array _ | .map _ => .error .notSearchable
    | .str s =>
      let names ← requiredNames properties rest
      return if properties.any (·.name == s) then s :: names else names
    | _ => requiredNames properties rest

namespace Keywords

/-- The schema of an object: a map when it has no properties and says what its keys hold. -/
def object (k : Keywords) : Reading := do
  let properties := k.properties.getD (.ok [])
  match properties, k.additional with
  | .ok [], some value => return .map .string (← value)
  | _, _ =>
    let properties ← properties
    let schemas ← properties.mapM fun p => p.schema.map fun s => (p.name, s)
    let names ← iterate (k.required.getD (.array []))
    let required ← requiredNames properties names
    let additional ← match k.additional with
      | some value => value.map some
      | none => .ok none
    return .object schemas required additional
      (properties.filterMap fun p => p.description.map fun d => (p.name, d))

/-- The schema of a type name. -/
def ofType (k : Keywords) (name : Value) : Reading :=
  match name with
  | .str "string" => .ok .string
  | .str "integer" => .ok .int
  | .str "number" => .ok .float
  | .str "boolean" => .ok .bool
  | .str "null" => .ok .null
  | .str "array" =>
    match k.items with
    | some item => item.map .array
    | none => .ok (.array (.external "any"))
  | .str "object" => k.object
  | _ => .error (.unsupportedType name)

/-- The schema by its type: one name or several, an object when there are properties only, and
otherwise an external name. -/
def byType (k : Keywords) : Reading := do
  match k.type with
  | some (.array names) => return choice (← names.mapM k.ofType)
  | some (.str name) => k.ofType (.str name)
  | _ => if k.properties.isSome then k.object else .ok (.external "any")

/-- The schema that the keywords describe. A reference counts first, then a fixed value, then an
enumeration, then a choice, then a single shape that has to hold. -/
def toSchema (k : Keywords) : Reading := do
  match k.ref with
  | some (.str ref) => return .ref (refName ref)
  | some _ => .error .notTable
  | none => match k.const with
    | some .null => return .null
    | some v => literal v
    | none => match k.enum with
      | some v => enumeration (← iterate v) k.type
      | none => match k.anyOf.or k.oneOf with
        | some members => return choice (← members)
        | none => match k.allOf with
          | some single => match ← single with
            | some s => return s
            | none => k.byType
          | none => k.byType

end Keywords

/-! ## Documents -/

/-- The keywords that are looked for before a document has to be a table. -/
def probes : List String := ["$ref", "const", "enum", "anyOf", "oneOf", "allOf"]

/-- The failure to read a text as a document: a keyword found in it cannot be followed. -/
def textError (s : String) : SchemaError :=
  if probes.any fun p => Text.occursIn p.toList s.toList then .notSearchable else .notTable

/-- The failure to read a list as a document. -/
def listError (items : List Value) : SchemaError :=
  if (texts items).any probes.contains then .notSearchable else .notTable

/-- The description of a property, unless it is void. -/
def description? : Value → Option Value
  | .map entries => (entries.lookup "description").filter fun v => !v.isVoid
  | _ => none

mutual

/-- Reads a document. -/
def read : Value → Reading
  | .map entries => (keywords entries).toSchema
  | .array items => .error (listError items)
  | .str s => .error (textError s)
  | _ => .error .notSearchable

/-- Reads the keywords of a document. -/
def keywords : List (String × Value) → Keywords
  | [] => {}
  | (name, v) :: rest =>
    let k := keywords rest
    match name with
    | "$ref" => { k with ref := some v }
    | "const" => { k with const := some v }
    | "enum" => { k with enum := some v }
    | "anyOf" => { k with anyOf := some (choices v) }
    | "oneOf" => { k with oneOf := some (choices v) }
    | "allOf" => { k with allOf := some (single v) }
    | "type" => { k with type := some v }
    | "items" => { k with items := table? v }
    | "properties" => { k with properties := some (properties v) }
    | "required" => { k with required := some v }
    | "additionalProperties" => { k with additional := table? v }
    | _ => k

/-- Reads the members of a choice. -/
def choices : Value → Except SchemaError (List Schema)
  | .array items => readAll items
  | .str s => if s = "" then .ok [] else .error .notTable
  | .map [] => .ok []
  | .map ((key, _) :: _) => .error (textError key)
  | _ => .error .notSearchable

/-- Reads documents one after the other. -/
def readAll : List Value → Except SchemaError (List Schema)
  | [] => .ok []
  | v :: rest => do
    let s ← read v
    let ss ← readAll rest
    return s :: ss

/-- Reads the only member of a list, if it has exactly one. -/
def single : Value → Except SchemaError (Option Schema)
  | .array [v] => (read v).map some
  | .array _ => .ok none
  | .str s => if s.length = 1 then .error .notTable else .ok none
  | .map [_] => .error .missingPart
  | .map _ => .ok none
  | _ => .error .notSearchable

/-- Reads a document that counts only when it is a table. -/
def table? : Value → Option Reading
  | .map entries => some (keywords entries).toSchema
  | _ => none

/-- Reads the properties of an object. -/
def properties : Value → Except SchemaError (List Property)
  | .map entries => .ok (propertyList entries)
  | v => if v.isVoid then .ok [] else .error .notTable

/-- Reads properties one after the other. -/
def propertyList : List (String × Value) → List Property
  | [] => []
  | (name, v) :: rest => ⟨name, description? v, read v⟩ :: propertyList rest

end

end JsonSchema

/-- The schema that a document describes. -/
def Schema.ofDocument (v : Value) : Except SchemaError Schema :=
  JsonSchema.read v

end ShapedReply
