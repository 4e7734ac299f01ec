import ShapedReply.Schema.Basic
import ShapedReply.Table

/-!
# Schemas as type expressions

A schema is written as an expression that a language model can follow: objects over several lines
with their properties in order, a question mark at those that may be missing, and descriptions as
comments above them. Names are replaced by what is known about them, but not inside themselves:
there, and when nothing is known, the bare name stands.
-/

namespace ShapedReply.Prompt

/-- Two blanks for each level; none below the first. -/
def padding (level : Int) : String :=
  String.ofList (List.replicate (2 * level.toNat) ' ')

/-- Values in quotes, with bars between them; any string when there are none. -/
def alternatives (values : List String) : String :=
  if values.isEmpty then "string"
  else Text.joinWith " | " (values.map fun v => (Value.str v).toLine)

/-- A description as comment lines; only a text has any. -/
def commentLines (level : Int) : Option Value → List String
  | some (.str description) =>
    (Text.lines description.toList).map fun line => padding level ++ "  // " ++ String.ofList line
  | _ => []

/-- The lines of one property. -/
def propertyLines (level : Int) (required : List String) (descriptions : Table Value)
    (name expression : String) : List String :=
  commentLines level (descriptions.get? name)
    ++ [padding level ++ "  " ++ name ++ (if required.contains name then "" else "?") ++ ": "
      ++ expression ++ ","]

/-- An object of the lines of its properties. -/
def braces (level : Int) (lines : List String) : String :=
  if lines.isEmpty then "\x7b\x7d"
  else Text.joinWith "\n" (["\x7b"] ++ lines ++ [padding level ++ "\x7d"])

/-- An expression as the item of a list: in parentheses if it is a choice. -/
def asItem (s : Schema) (expression : String) : String :=
  match s with
  | .anyOf _ | .optional _ => "(" ++ expression ++ ")"
  | _ => expression

mutual

/-- A schema as an expression at a level, given how names are written. -/
def expressionWith (named : Int → String → String) (level : Int) : Schema → String
  | .string => "string"
  | .int => "int"
  | .float => "float"
  | .bool => "bool"
  | .null => "null"
  | .array items => asItem items (expressionWith named level items) ++ "[]"
  | .map key value =>
    "map<" ++ expressionWith named level key ++ ", " ++ expressionWith named level value ++ ">"
  | .object properties required _ descriptions =>
    braces level (linesWith named level required descriptions properties)
  | .enum values _ => alternatives values
  | .ref name => named level name
  | .external name => name
  | .anyOf members => Text.joinWith " | " (membersWith named level members)
  | .optional inner => expressionWith named level inner ++ " | null"
  | .literal value => value.toValue.toAscii

/-- The members of a choice as expressions. -/
def membersWith (named : Int → String → String) (level : Int) : List Schema → List String
  | [] => []
  | s :: rest => expressionWith named level s :: membersWith named level rest

/-- The lines of properties. -/
def linesWith (named : Int → String → String) (level : Int) (required : List String)
    (descriptions : Table Value) : List (String × Schema) → List String
  | [] => []
  | (name, s) :: rest =>
    propertyLines level required descriptions name (expressionWith named (level + 1) s)
      ++ linesWith named level required descriptions rest

end

/-- The members of a choice are written one by one. -/
theorem membersWith_eq_map (named : Int → String → String) (level : Int) (members : List Schema) :
    membersWith named level members = members.map (expressionWith named level) := by
  induction members with
  | nil => rfl
  | cons s members ih => rw [membersWith, ih, List.map_cons]

/-- A name as an expression. What it stands for is written without the name being known, so the
number of known names bounds the depth. -/
def named : Nat → Table Definition → Int → String → String
  | 0, _, _, name => name
  | n + 1, known, level, name => match known.get? name with
    | some (.enum values _) => alternatives values
    | some (.object properties required descriptions) =>
      braces level (linesWith (named n (known.erase name)) level required descriptions properties)
    | none => name

/-- A schema as an expression at a level, with what is known about names. -/
def expressionAt (known : Table Definition) (level : Int) (s : Schema) : String :=
  expressionWith (named known.length known) level s

/-- An object as an expression, with further descriptions of its own properties. -/
def objectAt (known : Table Definition) (level : Int) (properties : Table Schema)
    (required : List String) (descriptions : Table Value) : String :=
  braces level (linesWith (named known.length known) level required descriptions properties)

/-- A schema as an expression. Further descriptions count for an object only; they replace its
own. -/
def expression (known : Table Definition) (s : Schema) (further : Table Value) (level : Int) :
    String :=
  match s with
  | .object properties required _ descriptions =>
    objectAt known level properties required (Table.update descriptions further)
  | s => expressionAt known level s

end ShapedReply.Prompt
