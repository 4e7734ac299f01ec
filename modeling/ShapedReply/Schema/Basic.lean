import ShapedReply.Number.Literal
import ShapedReply.Text.Lines
import ShapedReply.Value.Writer

/-!
# Schemas

A schema describes the values that an answer may have. Named references are looked up in a catalog
when a value is held against the schema; an external name stands for a type that is not looked into.
A `Definition` is what a catalog holds under a name: an enum or an object.
-/

namespace ShapedReply

/-- The expected shape of a value. -/
inductive Schema where
  | string
  | int
  | float
  | bool
  | null
  /-- A list of items. -/
  | array (items : Schema)
  /-- A map with arbitrary keys. -/
  | map (key value : Schema)
  /-- A map with declared properties, in order: which of them have to be there, what undeclared keys
  hold (anything when nothing is said), and what the properties are for. A description is usually a
  text, but a document may give any value. -/
  | object (properties : List (String × Schema)) (required : List String)
      (additional : Option Schema) (descriptions : List (String × Value))
  /-- A closed set of strings, with other spellings of them; without values, any string. -/
  | enum (values : List String) (aliases : List (String × String))
  /-- A name of a catalog. -/
  | ref (name : String)
  /-- A name that nothing is known about. -/
  | external (name : String)
  /-- One of several shapes, tried in order. -/
  | anyOf (members : List Schema)
  /-- A shape or null. -/
  | optional (inner : Schema)
  /-- A single scalar. -/
  | literal (value : Scalar)

/-- What a catalog holds under a name. -/
inductive Definition where
  | enum (values : List String) (aliases : List (String × String))
  | object (properties : List (String × Schema)) (required : List String)
      (descriptions : List (String × Value))

/-- A definition as a schema. The undeclared keys of a defined object are free. -/
def Definition.toSchema : Definition → Schema
  | .enum values aliases => .enum values aliases
  | .object properties required descriptions => .object properties required none descriptions

/-- Whether a scalar can be written: it is no whole number with too many digits. -/
def Scalar.isWritable : Scalar → Bool
  | .int n => isWritableInteger n
  | _ => true

/-- What a catalog knows about names. -/
abbrev Resolver := String → Option Definition

namespace Schema

/-- The name of a schema's kind. -/
def kindName : Schema → String
  | .string => "string"
  | .int => "int"
  | .float => "float"
  | .bool => "bool"
  | .null => "null"
  | .array _ => "array"
  | .map .. => "map"
  | .object .. => "object"
  | .enum .. => "enum"
  | .ref _ => "ref"
  | .external _ => "reference"
  | .anyOf _ => "anyOf"
  | .optional _ => "optional"
  | .literal _ => "literal"

mutual

/-- Whether a schema says by itself that null is among its values. -/
def isOptional : Schema → Bool
  | .optional _ => true
  | .null => true
  | .anyOf members => anyOptional members
  | _ => false

/-- Whether some member is optional. -/
def anyOptional : List Schema → Bool
  | [] => false
  | s :: rest => isOptional s || anyOptional rest

end

mutual

/-- A short name for a schema, for error reports. There is none if it takes a number that cannot be
written. -/
def label? : Schema → Option String
  | .array items => do return (← label? items) ++ "[]"
  | .map key value => do return "map<" ++ (← label? key) ++ ", " ++ (← label? value) ++ ">"
  | .ref name => some name
  | .external name => some name
  | .anyOf members => do return "union(" ++ Text.joinWith " | " (← labels? members) ++ ")"
  | .optional inner => do return (← label? inner) ++ "?"
  | .literal value => if value.isWritable then some value.toValue.toAscii else none
  | .string => some "string"
  | .int => some "int"
  | .float => some "float"
  | .bool => some "bool"
  | .null => some "null"
  | .object .. => some "object"
  | .enum .. => some "enum"

/-- The short names of several schemas. -/
def labels? : List Schema → Option (List String)
  | [] => some []
  | s :: rest => do return (← label? s) :: (← labels? rest)

end

mutual

/-- The catalog names that a schema mentions, from left to right, with repetitions. -/
def references : Schema → List String
  | .ref name => [name]
  | .array items => references items
  | .map key value => references key ++ references value
  | .object properties _ additional _ =>
    propertyReferences properties ++ (match additional with
      | some s => references s
      | none => [])
  | .anyOf members => memberReferences members
  | .optional inner => references inner
  | .string | .int | .float | .bool | .null | .enum .. | .external _ | .literal _ => []

/-- The catalog names that several schemas mention. -/
def memberReferences : List Schema → List String
  | [] => []
  | s :: rest => references s ++ memberReferences rest

/-- The catalog names that properties mention. -/
def propertyReferences : List (String × Schema) → List String
  | [] => []
  | (_, s) :: rest => references s ++ propertyReferences rest

end

/-- A list of the schema's values. -/
def listed (s : Schema) : Schema := .array s

/-- The schema's values and null. A schema that is marked so already stays as it is. -/
def orNull : Schema → Schema
  | .optional inner => .optional inner
  | s => .optional s

end Schema

end ShapedReply
