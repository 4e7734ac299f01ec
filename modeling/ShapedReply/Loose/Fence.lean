import ShapedReply.Text.Blank

/-!
# Fenced blocks

A fence is a row of three backticks; a block is what stands between two fences. A block may carry a
tag behind its opening fence. Blocks tagged as JSON are looked at first, whatever the case of the
tag; then all blocks, with any tag or none.
-/

namespace ShapedReply

namespace Fence

/-- The text after a fence at the start of a text. -/
def open? : Text → Option Text
  | '\x60' :: '\x60' :: '\x60' :: r => some r
  | _ => none

/-- What stands before the first fence of a text, and what stands after it. -/
def body? : Text → Option (Text × Text)
  | '\x60' :: '\x60' :: '\x60' :: r => some ([], r)
  | c :: r => (body? r).map fun (b, r) => (c :: b, r)
  | [] => none

/-- A text without the spaces and tabs at its start. -/
def skipSpaces (t : Text) : Text :=
  t.dropWhile fun c => c == ' ' || c == '\t'

/-- A text without a carriage return at its start. -/
def skipReturn : Text → Text
  | '\x0d' :: r => r
  | r => r

/-- A text without a line feed at its start. -/
def skipFeed : Text → Text
  | '\n' :: r => r
  | r => r

/-- The text after the tag `json`, in any case; a long s counts as an s. -/
def jsonTag? : Text → Option Text
  | j :: s :: o :: n :: r =>
    if (j == 'j' || j == 'J') && (s == 's' || s == 'S' || s == 'ſ') && (o == 'o' || o == 'O')
        && (n == 'n' || n == 'N') then some r
    else none
  | _ => none

/-- The text after the head of a JSON block: fence, tag, and at most one line break. -/
def jsonHead? (t : Text) : Option Text := do
  let r ← open? t
  let r ← jsonTag? r
  return skipFeed (skipReturn (skipSpaces r))

/-- Whether a character may stand in a tag. -/
def isTagPart (c : Char) : Bool :=
  ('a' ≤ c && c ≤ 'z') || ('A' ≤ c && c ≤ 'Z') || ('0' ≤ c && c ≤ '9') || c == '_' || c == '+'
    || c == '-'

/-- The text after the head of any block: the fence, and a tag if a line break follows it. -/
def anyHead? (t : Text) : Option Text := do
  let r ← open? t
  match skipReturn (skipSpaces (r.dropWhile isTagPart)) with
  | '\n' :: rest => return rest
  | _ => return r

/-- The block at the start of a text, and what stands after it. -/
def block? (head? : Text → Option Text) (t : Text) : Option (Text × Text) :=
  head? t >>= body?

/-- The blocks of a text, after a number of characters that belong to the last block. -/
def blocksFrom (head? : Text → Option Text) : Nat → Text → List Text
  | _, [] => []
  | skip + 1, _ :: r => blocksFrom head? skip r
  | 0, c :: r =>
    match block? head? (c :: r) with
    | some (body, rest) => body :: blocksFrom head? (r.length - rest.length) r
    | none => blocksFrom head? 0 r

/-- The trimmed blocks of a text from left to right. -/
def blocks (head? : Text → Option Text) (t : Text) : List Text :=
  (blocksFrom head? 0 t).map Text.trim

/-- Adds the items of a list that are not there yet. -/
def addNew (known : List Text) (more : List Text) : List Text :=
  more.foldl (fun known t => if known.contains t then known else known ++ [t]) known

end Fence

/-- The trimmed fenced blocks of a text: the JSON ones first, then those of any kind that are not
there yet. -/
def fencedBlocks (t : Text) : List Text :=
  Fence.addNew (Fence.blocks Fence.jsonHead? t) (Fence.blocks Fence.anyHead? t)

end ShapedReply
