import ShapedReply.Loose.Chunk

/-!
# Bracketed spans

A document in free-form text starts at an opening bracket. `spanLength?` finds where the bracket at
the start of a text closes, counting only brackets outside literals; `spans` lists the bracketed
spans of a text from left to right, each search going on after the span before. An `Outline` is what
is left open at the end of a text, for documents that break off.
-/

namespace ShapedReply

namespace Bracket

/-- The closing bracket for an opening one. -/
def closerOf? : Char → Option Char
  | '{' => some '}'
  | '[' => some ']'
  | _ => none

/-- Whether a character is an opening bracket. -/
def isOpener (c : Char) : Bool := (closerOf? c).isSome

/-- Whether a character is a closing bracket. -/
def isCloser (c : Char) : Bool := c == '}' || c == ']'

/-- The number of characters up to the one that closes the outermost open bracket, given where the
scan stands and the closers it waits for, innermost first. A closer of the wrong kind ends the
search. -/
def closingAt? (quotes : List Char) : Place → List Char → Text → Option Nat
  | _, _, [] => none
  | .code, closers, c :: r =>
    match closerOf? c with
    | some k => (closingAt? quotes .code (k :: closers) r).map (· + 1)
    | none =>
      if isCloser c then
        match closers with
        | [] => none
        | k :: rest =>
          if k ≠ c then none
          else if rest.isEmpty then some 1
          else (closingAt? quotes .code rest r).map (· + 1)
      else (closingAt? quotes (Place.next quotes .code c) closers r).map (· + 1)
  | place, closers, c :: r => (closingAt? quotes (place.next quotes c) closers r).map (· + 1)

/-- The length of the bracketed span at the start of a text. -/
def spanLength? (quotes : List Char) (t : Text) : Option Nat :=
  closingAt? quotes .code [] t

/-- The bracketed spans of a text, after a number of characters that belong to the last span. -/
def spansFrom (quotes : List Char) : Nat → Text → List Text
  | _, [] => []
  | skip + 1, _ :: r => spansFrom quotes skip r
  | 0, c :: r =>
    if isOpener c then
      match spanLength? quotes (c :: r) with
      | some n => (c :: r).take n :: spansFrom quotes (n - 1) r
      | none => spansFrom quotes 0 r
    else spansFrom quotes 0 r

/-- The bracketed spans of a text that lie in no other, from left to right. -/
def spans (quotes : List Char) (t : Text) : List Text :=
  spansFrom quotes 0 t

/-- The text from its first opening bracket on. -/
def fromOpener (t : Text) : Text :=
  t.dropWhile fun c => !isOpener c

end Bracket

/-- What a scan of strict text has seen: the brackets still open, where it stands, and the places at
which the text could be cut so that whole entries remain. -/
structure Outline where
  /-- The closers of the open brackets, innermost first. -/
  closers : List Char := []
  /-- Where the scan stands. -/
  place : Place := .code
  /-- How many characters were read. -/
  read : Nat := 0
  /-- The lengths at which the text could be cut, the latest first: after an opening bracket and
  before a comma. -/
  cuts : List Nat := []

namespace Outline

/-- One more character. A closing bracket that does not fit is passed over. -/
def step (o : Outline) (c : Char) : Outline :=
  let next : Outline := { o with place := o.place.next strictQuotes c, read := o.read + 1 }
  match o.place with
  | .code =>
    match Bracket.closerOf? c with
    | some k => { next with closers := k :: o.closers, cuts := (o.read + 1) :: o.cuts }
    | none =>
      if Bracket.isCloser c then
        if o.closers.head? = some c then { next with closers := o.closers.tail } else next
      else if c = ',' then { next with cuts := o.read :: o.cuts }
      else next
  | _ => next

/-- The outline of a text. -/
def ofText (t : Text) : Outline :=
  t.foldl step {}

/-- Whether something is still open at the end. -/
def isOpen (o : Outline) : Bool :=
  !o.closers.isEmpty || o.place != .code

end Outline

/-- Whether a document that starts at the first opening bracket breaks off before it ends. -/
def isCutOff (t : Text) : Bool :=
  match Bracket.fromOpener t with
  | [] => false
  | body => (Bracket.spanLength? strictQuotes body).isNone && (Outline.ofText body).isOpen

end ShapedReply
