import ShapedReply.Loose.Bracket
import ShapedReply.Loose.Mend

/-!
# Completing documents that break off

A document that breaks off is closed where it stands: an open string gets its quote, a dangling
comma goes, a dangling colon gets a null, and the open brackets are closed from the inside out. If
the result is not strict, the document is cut back to earlier commas and openings, the latest first.
The empty document of its first bracket is the last resort, so completion always answers.
-/

namespace ShapedReply

namespace Completion

open Text

/-- A text with an open string closed; a backslash without its character goes. -/
def closeString (o : Outline) (t : Text) : Text :=
  match o.place with
  | .code => t
  | .inside q => t ++ [q]
  | .escaped q => t.dropLast ++ [q]

/-- A text without a comma at its end, or with a null after a colon at its end. -/
def settleEnd (t : Text) : Text :=
  match t.getLast? with
  | some ',' => t.dropLast
  | some ':' => t ++ [' ', 'n', 'u', 'l', 'l']
  | _ => t

/-- A text with everything closed that it leaves open, if that makes it strict. -/
def close? (t : Text) : Option Text :=
  let o := Outline.ofText t
  let closed := Mend.dropTrailingCommas (settleEnd (trimEnd (closeString o t)) ++ o.closers)
  if isStrict closed then some closed else none

/-- A closed text is the text with its end settled and its brackets closed, and it is strict. -/
theorem close?_eq_some_iff {t r : Text} : close? t = some r ↔
    Mend.dropTrailingCommas (settleEnd (trimEnd (closeString (Outline.ofText t) t)) ++
      (Outline.ofText t).closers) = r ∧ isStrict r = true := by
  rw [close?, Option.ite_none_right_eq_some, Option.some_inj]
  constructor
  · rintro ⟨hstrict, hclosed⟩
    exact ⟨hclosed, hclosed ▸ hstrict⟩
  · rintro ⟨hclosed, hstrict⟩
    exact ⟨hclosed ▸ hstrict, hclosed⟩

/-- The stages of mending that a document goes through before it is closed. -/
def stages : List Mend.Stage :=
  [.comments, .bareKeys, .singleQuotes, .controlCharacters]

/-- The empty document of the bracket with which a text starts, a map when there is none. -/
def emptyLike : Text → Text
  | '[' :: _ => ['[', ']']
  | _ => ['{', '}']

end Completion

open Completion in
/-- The document that starts at the first opening bracket of a text, completed. -/
def complete (t : Text) : Text :=
  match Bracket.fromOpener t with
  | [] => emptyLike []
  | opened =>
    let body := Mend.applyAll stages opened
    match close? body with
    | some closed => closed
    | none =>
      ((Outline.ofText body).cuts.findSome? fun n => close? (body.take n)).getD (emptyLike body)

end ShapedReply
