import ShapedReply.Prompt.Draft
import ShapedReply.Text.Word
import ShapedReply.Value.Display

/-!
# Prompts with instructions

Ready-made ways to put the instruction for an answer into a prompt: behind a text, into a single
message, into a pair of messages, or into a conversation that is there already.
-/

namespace ShapedReply.Prompt

/-- A prompt with the instruction behind it, if there is one. -/
def withInstruction (known : Table Definition) (prompt : String) (s : Schema) :
    Except ShowError String := do
  let text ← instruct known s []
  return if text = "" then prompt else prompt ++ "\n\n" ++ text

/-- A single message of the user. -/
def single (known : Table Definition) (prompt : String) (s : Option Schema) :
    Except ShowError (List Message) := do
  let content ← match s with
    | some s => withInstruction known prompt s
    | none => .ok prompt
  return [⟨"user", content⟩]

/-- A message of the system and one of the user. The instruction goes behind the former, unless that
mentions the variable for it. -/
def pair (known : Table Definition) (system user : String) (s : Option Schema) :
    Except ShowError (List Message) := do
  let opening ← match s with
    | some s =>
      if Text.occursIn instructionVariable.toList system.toList then .ok system
      else withInstruction known system s
    | none => .ok system
  (({} : Draft).system opening).user user |>.build known s []

/-! ## Conversations -/

/-- Why a value is not a conversation. -/
inductive ConversationError where
  /-- The instruction cannot be written. -/
  | unwritten (reason : ShowError)
  /-- A message, or one of its entries, is not made of parts. -/
  | noParts
  /-- An entry of a message does not have two parts. -/
  | entryLength (position length : Nat)
  /-- The message of the system says nothing. -/
  | noContent

/-- The wording of an error, where there is one. -/
def ConversationError.message? : ConversationError → Option String
  | .entryLength position length => some ("dictionary update sequence element #"
      ++ toString position ++ " has length " ++ toString length ++ "; 2 is required")
  | _ => none

/-- The entries of a message. Their keys may be any scalars. -/
abbrev Entries := List (Scalar × Value)

namespace Entries

/-- The entry under a key. -/
def get? (entries : Entries) (key : Scalar) : Option Value :=
  (entries.find? fun e => e.1.toValue.alike key.toValue).map (·.2)

/-- Puts an entry: in the place of a key that is alike, or at the end. -/
def put : Entries → Scalar → Value → Entries
  | [], key, v => [(key, v)]
  | (k, w) :: rest, key, v =>
    if k.toValue.alike key.toValue then (k, v) :: rest else (k, w) :: put rest key v

/-- The text of a key. -/
def keyText : Scalar → String
  | .str s => s
  | s => s.toValue.toLine

/-- Entries as a value. Keys that are not alike may have one text. -/
def toValue (entries : Entries) : Value :=
  .map (entries.map fun e => (keyText e.1, e.2))

end Entries

/-- The entries of a message that is given by pairs. -/
def entriesOfPairs (entries : Entries) : Nat → List Value → Except ConversationError Entries
  | _, [] => .ok entries
  | i, v :: rest => match v.elements? with
    | none => .error .noParts
    | some [key, value] => match key.scalar? with
      | some key => entriesOfPairs (entries.put key value) (i + 1) rest
      | none => .error .noParts
    | some parts => .error (.entryLength i parts.length)

/-- The entries of a message: those of a map, or pairs. -/
def messageEntries (v : Value) : Except ConversationError Entries :=
  match v with
  | .map entries => .ok (entries.map fun e => (.str e.1, e.2))
  | v => match v.elements? with
    | some pairs => entriesOfPairs [] 0 pairs
    | none => .error .noParts

/-- The first message of the system with an instruction behind it; none if there is no such
message. -/
def appendToSystem (text : String) :
    List Entries → Except ConversationError (Option (List Entries))
  | [] => .ok none
  | m :: rest =>
    if m.get? (.str "role") = some (.str "system") then
      match m.get? (.str "content") with
      | some content =>
        .ok (some (m.put (.str "content") (.str (content.display ++ "\n\n" ++ text)) :: rest))
      | none => .error .noContent
    else (appendToSystem text rest).map fun found => found.map (m :: ·)

/-- A conversation with an instruction: behind the first message of the system, or as one in
front. -/
def inject (known : Table Definition) (conversation : Value) (s : Schema) :
    Except ConversationError Value := do
  let text ← (instruct known s []).mapError .unwritten
  let messages ← match conversation.elements? with
    | some vs => vs.mapM messageEntries
    | none => .error .noParts
  if text = "" then return .array (messages.map Entries.toValue)
  match ← appendToSystem text messages with
  | some changed => return .array (changed.map Entries.toValue)
  | none => return .array (Message.toValue ⟨"system", text⟩ :: messages.map Entries.toValue)

end ShapedReply.Prompt
