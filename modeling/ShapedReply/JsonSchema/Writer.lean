import ShapedReply.JsonSchema.Basic
import ShapedReply.Schema.Basic

/-!
# Writing JSON Schema documents

Every schema has a document: an optional shape is a choice with null, a literal is an enum of one
typed value, a map is an object without properties, and an object allows no undeclared keys unless
it says what they hold. References point into the definitions of the document.
-/

namespace ShapedReply

namespace JsonSchema

/-- The document of a single type name. -/
def typed (name : String) : List (String × Value) :=
  [("type", .str name)]

mutual

/-- The entries of a schema's document. -/
def entries : Schema → Except SchemaError (List (String × Value))
  | .string => .ok (typed "string")
  | .int => .ok (typed "integer")
  | .float => .ok (typed "number")
  | .bool => .ok (typed "boolean")
  | .null => .ok (typed "null")
  | .array items => do
    let item ← entries items
    return typed "array" ++ [("items", .map item)]
  | .map _ value => do
    let value ← entries value
    return typed "object" ++ [("properties", .map []), ("additionalProperties", .map value)]
  | .object properties required additional descriptions => do
    let properties ← propertyEntries descriptions properties
    let additional ← match additional with
      | some s => (entries s).map .map
      | none => .ok (.bool false)
    return typed "object" ++ [("properties", .map properties)]
      ++ (if required.isEmpty then [] else [("required", .array (required.map .str))])
      ++ [("additionalProperties", additional)]
  | .enum values _ => .ok (typed "string" ++ [("enum", .array (values.map .str))])
  | .ref name => .ok [("$ref", .str (definitionsPrefix ++ name))]
  | .external name => .ok [("$ref", .str (definitionsPrefix ++ name))]
  | .anyOf members => do
    let members ← memberDocuments members
    return [("anyOf", .array members)]
  | .optional inner => do
    let inner ← entries inner
    return [("anyOf", .array [.map inner, .map (typed "null")])]
  | .literal value =>
    match literalType? value with
    | some name => .ok (typed name ++ [("enum", .array [value.toValue])])
    | none => .error .untypedLiteral

/-- The documents of the members of a choice. -/
def memberDocuments : List Schema → Except SchemaError (List Value)
  | [] => .ok []
  | s :: rest => do
    let document ← entries s
    let documents ← memberDocuments rest
    return .map document :: documents

/-- The documents of properties, each with its description. -/
def propertyEntries (descriptions : List (String × Value)) :
    List (String × Schema) → Except SchemaError (List (String × Value))
  | [] => .ok []
  | (name, s) :: rest => do
    let document ← entries s
    let described := match descriptions.lookup name with
      | some description => Table.put document "description" description
      | none => document
    let documents ← propertyEntries descriptions rest
    return (name, .map described) :: documents

end

/-- The document of every definition. -/
def definitionEntries (definitions : List (String × Schema)) :
    Except SchemaError (List (String × Value)) :=
  propertyEntries [] definitions

end JsonSchema

/-- The document of a schema. -/
def Schema.toDocument (s : Schema) : Except SchemaError Value :=
  (JsonSchema.entries s).map .map

/-- The document of a schema with the definitions that it refers to. -/
def Schema.toDocumentWith (s : Schema) (definitions : List (String × Schema)) :
    Except SchemaError Value := do
  let root ← JsonSchema.entries s
  let named ← JsonSchema.definitionEntries definitions
  return .map (if named.isEmpty then root else Table.put root "$defs" (.map named))

end ShapedReply
