import ShapedReply.Catalog.Basic
import ShapedReply.Prompt.Described
import ShapedReply.Target.Document

/-!
# Instructions

The part of a prompt that says what shape the answer has. A plain string needs no instruction, other
scalars are named, enums are listed as categories, and all else is shown as an expression.
-/

namespace ShapedReply.Prompt

/-- What stands before an expression. -/
def lead : String := "Answer in JSON using this schema:"

/-- What stands before the expression of a list. -/
def listLead : String := "Answer with a JSON Array using this schema:"

/-- The instruction for a name that nothing is known about. -/
def plainLead : String := "Answer in JSON."

/-- The instruction to choose a category. -/
def categories (values : List String) : String :=
  "Answer with any of the categories:\n----" ++ String.join (values.map fun v => "\n- " ++ v)

/-- An expression with its lead. -/
def led (expression : String) : String := lead ++ "\n" ++ expression

/-- The instruction for an answer of a shape. Further descriptions count for an object, or for a
name that stands for one. -/
def instruction (known : Table Definition) (s : Schema) (further : Table Value) : String :=
  match s with
  | .string => ""
  | .int => "Answer as an int"
  | .float => "Answer as a float"
  | .bool => "Answer as a bool"
  | .null => "Answer with null"
  | .enum values _ => categories values
  | .array items =>
    listLead ++ "\n" ++ asItem items (expressionAt known 0 items) ++ "[]"
  | .anyOf members =>
    "Answer with one of: " ++ Text.joinWith " | " (members.map (expressionAt known 0))
  | .ref name => match known.get? name with
    | some (.enum values _) => categories values
    | some (.object properties required descriptions) =>
      led (objectAt (known.erase name) 0 properties required (Table.update descriptions further))
    | none => led name
  | s => led (expression known s further 0)

/-- What an instruction shows. -/
def shownByInstruction (known : Table Definition) (s : Schema) (further : Table Value) :
    List Shown :=
  match s with
  | .ref name => match known.get? name with
    | some (.object properties _ descriptions) =>
      shownByObject (known.erase name) properties (Table.update descriptions further)
    | _ => []
  | s => shown known s further

/-- The instruction for an answer of a shape, if it can be written. -/
def instruct (known : Table Definition) (s : Schema) (further : Table Value) :
    Except ShowError String :=
  showing (shownByInstruction known s further) (instruction known s further)

/-- The instruction for a name of a catalog. -/
def instructForName (c : Catalog) (name : String) : Except ShowError String :=
  if (c.resolve name).isSome then instruct c.definitions (.ref name) [] else .ok plainLead

/-- A schema without the descriptions of its own properties. -/
def undescribed : Schema → Schema
  | .object properties required additional _ => .object properties required additional []
  | s => s

/-- Why there is no instruction for a class. -/
inductive ClassError where
  /-- The class has no schema. -/
  | noSchema (reason : DescribeError)
  /-- The instruction cannot be written. -/
  | unwritten (reason : ShowError)

/-- The instruction for a class, with or without descriptions. -/
def instructForClass (c : Catalog) (t : Target) (described : Bool) : Except ClassError String := do
  let s ← t.describe.mapError .noSchema
  let text := if described then instruct c.definitions s t.fieldDescriptions
    else instruct c.definitions (undescribed s) []
  text.mapError .unwritten

/-- Definitions by name, then the enums of a catalog, then the shape of the answer, in which the
defined names stand bare. -/
def instructionWithDefinitions (c : Catalog) (root : Schema) (definitions : Table Schema) :
    String :=
  let known := c.definitions.filter fun e => !definitions.has e.1
  let enums := c.enumValues.filter fun e => !definitions.has e.1
  let lines := (Target.sortByName definitions).map (fun e =>
      "  " ++ e.1 ++ " = " ++ expressionAt known 1 e.2)
    ++ enums.map fun e => "  " ++ e.1 ++ " = " ++ alternatives e.2
  let head := if lines.isEmpty then [] else ["Type definitions:"] ++ lines ++ [""]
  Text.joinWith "\n" (head ++ [lead, expressionAt known 0 root])

/-- Definitions and the shape of the answer, if they can be written. -/
def instructWithDefinitions (c : Catalog) (root : Schema) (definitions : Table Schema) :
    Except ShowError String :=
  let known := c.definitions.filter fun e => !definitions.has e.1
  showing ((Target.sortByName definitions).flatMap (fun e => shownBySchema known e.2)
      ++ shownBySchema known root)
    (instructionWithDefinitions c root definitions)

end ShapedReply.Prompt
