import ShapedReply.JsonSchema.Basic
import ShapedReply.Schema.Basic

/-!
# Tagged schemas

A compact form of schemas for other programs: every schema is a table with a `type` tag and the
parts that the tag calls for.
-/

namespace ShapedReply

namespace Tagged

/-- The tag of a literal. -/
def literalTag? : Scalar → Option String
  | .bool _ => some "literal_bool"
  | .int _ => some "literal_int"
  | .str _ => some "literal_string"
  | .float _ | .null => none

/-- A table with a tag. -/
def tagged (tag : String) (parts : List (String × Value)) : Value :=
  .map (("type", .str tag) :: parts)

mutual

/-- A schema in tagged form. -/
def ofSchema : Schema → Except SchemaError Value
  | .string => .ok (tagged "string" [])
  | .int => .ok (tagged "int" [])
  | .float => .ok (tagged "float" [])
  | .bool => .ok (tagged "bool" [])
  | .null => .ok (tagged "null" [])
  | .array items => do
    let inner ← ofSchema items
    return tagged "list" [("inner", inner)]
  | .map key value => do
    let key ← ofSchema key
    let value ← ofSchema value
    return tagged "map" [("key", key), ("value", value)]
  | .object properties required _ _ => do
    let properties ← ofProperties required properties
    return tagged "object" [("properties", .array properties)]
  | .enum values _ => .ok (tagged "enum" [("values", .array (values.map .str))])
  | .ref name => .ok (tagged "ref" [("name", .str name)])
  | .external name => .ok (tagged "reference" [("name", .str name)])
  | .anyOf members => do
    let options ← ofMembers members
    return tagged "union" [("options", .array options)]
  | .optional inner => do
    let inner ← ofSchema inner
    return tagged "optional" [("inner", inner)]
  | .literal value =>
    match literalTag? value with
    | some tag => .ok (tagged tag [("value", value.toValue)])
    | none => .error .untypedLiteral

/-- Members in tagged form. -/
def ofMembers : List Schema → Except SchemaError (List Value)
  | [] => .ok []
  | s :: rest => do
    let v ← ofSchema s
    let vs ← ofMembers rest
    return v :: vs

/-- Properties in tagged form, each with whether it is required. -/
def ofProperties (required : List String) : List (String × Schema) → Except SchemaError (List Value)
  | [] => .ok []
  | (name, s) :: rest => do
    let v ← ofSchema s
    let vs ← ofProperties required rest
    return .map [("name", .str name), ("type", v),
      ("required", .bool (required.contains name))] :: vs

end

end Tagged

/-- A schema in tagged form. -/
def Schema.toTagged (s : Schema) : Except SchemaError Value :=
  Tagged.ofSchema s

end ShapedReply
