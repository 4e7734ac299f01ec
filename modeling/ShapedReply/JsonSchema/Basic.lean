import ShapedReply.Value.Display

/-!
# JSON Schema documents

A schema can be written as a JSON Schema document and read from one. This module holds what both
directions share: the keywords of the format, the names of its types, and the ways in which a
conversion fails. A document is an ordinary value; reading one that is not built as expected fails
with the reason why its parts could not be taken.
-/

namespace ShapedReply

/-- Why a schema document cannot be read or written. -/
inductive SchemaError where
  /-- A fixed value is no string, whole number or truth value. -/
  | unsupportedLiteral (value : Value)
  /-- A type name is not one of the format's. -/
  | unsupportedType (name : Value)
  /-- A part was looked for in a value that has no such parts. -/
  | notSearchable
  /-- A table or a text was expected and something else found. -/
  | notTable
  /-- A container lacks the part that was looked for. -/
  | missingPart
  /-- A literal to be written is no string, whole number or truth value. -/
  | untypedLiteral

/-- The wording of an error; faults of construction have none. -/
def SchemaError.message? : SchemaError → Option String
  | .unsupportedLiteral value => some ("Unsupported literal value: " ++ String.ofList value.quoted)
  | .unsupportedType name => some ("Unsupported JSON Schema type: " ++ name.display)
  | _ => none

namespace JsonSchema

/-- The place of definitions in a document. -/
def definitionsPrefix : String := "#/$defs/"

/-- The places of definitions in documents of any age. -/
def definitionsPrefixes : List String := [definitionsPrefix, "#/definitions/"]

/-- The type name of a literal. -/
def literalType? : Scalar → Option String
  | .bool _ => some "boolean"
  | .int _ => some "integer"
  | .str _ => some "string"
  | .float _ | .null => none

end JsonSchema

end ShapedReply
