import ShapedReply.Prompt.Instruction
import ShapedReply.Prompt.Template

/-!
# Drafting prompts

A draft collects templates, variables and examples, and makes chat messages of them. The instruction
for the answer and the examples are variables as well: `ctx.output_format` is the instruction,
`examples` all examples with an empty line between them, and `example` the only one.
-/

namespace ShapedReply.Prompt

/-- A chat message. -/
structure Message where
  /-- Who speaks. -/
  role : String
  /-- What is said. -/
  content : String

/-- A message as a value. -/
def Message.toValue (m : Message) : Value :=
  .map [("role", .str m.role), ("content", .str m.content)]

/-- Messages as a value. -/
def messagesToValue (ms : List Message) : Value :=
  .array (ms.map Message.toValue)

/-- The variable that holds the instruction. -/
def instructionVariable : String := "ctx.output_format"

/-- A prompt in the making. -/
structure Draft where
  /-- The template of the system message. -/
  systemTemplate : Option String := none
  /-- The template of the user message. -/
  userTemplate : Option String := none
  /-- The variables so far. -/
  bindings : Table Value := []
  /-- The examples so far. -/
  examples : List Value := []

namespace Draft

/-- Sets the template of the system message. -/
def system (d : Draft) (template : String) : Draft :=
  { d with systemTemplate := some template }

/-- Sets the template of the user message. -/
def user (d : Draft) (template : String) : Draft :=
  { d with userTemplate := some template }

/-- Binds a variable. -/
def bindVariable (d : Draft) (name : String) (v : Value) : Draft :=
  { d with bindings := d.bindings.put name v }

/-- Binds several variables. -/
def bindAll (d : Draft) (bindings : Table Value) : Draft :=
  { d with bindings := d.bindings.update bindings }

/-- Binds a variable to the value text of a value over several lines. -/
def bindText (d : Draft) (name : String) (v : Value) : Draft :=
  d.bindVariable name (.str (v.toLines (some 2)))

/-- Adds an example. -/
def withExample (d : Draft) (v : Value) : Draft :=
  { d with examples := d.examples ++ [v] }

/-- An example as it is shown. -/
def exampleText : Value → String
  | .str s => s
  | v => v.toLines (some 2)

/-- The variables for examples. -/
def exampleVariables (examples : List Value) : Table Value :=
  let texts := examples.map exampleText
  (match texts with
    | [only] => [("example", .str only)]
    | _ => [])
  ++ (if texts.isEmpty then [] else [("examples", .str (Text.joinWith "\n\n" texts))])

/-- All variables of a draft, with an instruction if there is one. -/
def context (d : Draft) (instruction : Option String) : Table Value :=
  let given := match instruction with
    | some text => d.bindings.put instructionVariable (.str text)
    | none => d.bindings
  given.update (exampleVariables d.examples)

/-- The messages of a draft. -/
def messages (d : Draft) (instruction : Option String) : List Message :=
  let say (role : String) (template : Option String) : List Message :=
    template.toList.map fun t => ⟨role, fill t (d.context instruction)⟩
  say "system" d.systemTemplate ++ say "user" d.userTemplate

/-- The messages of a draft for an answer of a shape. -/
def build (d : Draft) (known : Table Definition) (s : Option Schema) (further : Table Value) :
    Except ShowError (List Message) := do
  let text ← s.mapM fun s => instruct known s further
  return d.messages text

/-- The messages of a draft for an answer that is a class. -/
def buildForClass (d : Draft) (known : Table Definition) (t : Target) :
    Except ClassError (List Message) := do
  let s ← t.describe.mapError .noSchema
  (d.build known (some s) t.fieldDescriptions).mapError .unwritten

end Draft

end ShapedReply.Prompt
