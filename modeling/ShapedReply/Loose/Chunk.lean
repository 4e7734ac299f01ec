import ShapedReply.Text.Blank

/-!
# Inside and outside of string literals

Loose text is scanned with an eye on string literals: brackets, commas, comment marks and quotes
inside a literal mean nothing. `Place` says where a scan stands, one character at a time. `split`
cuts a text into chunks that lie wholly inside or outside a literal; the chunks in a row are the
text again (`join_split`).
-/

namespace ShapedReply

/-- Where a scan stands with respect to string literals. -/
inductive Place where
  /-- Outside every literal. -/
  | code
  /-- Inside a literal that the given quote opened. -/
  | inside (quote : Char)
  /-- Inside a literal, right after a backslash: the next character has no meaning of its own. -/
  | escaped (quote : Char)
  deriving DecidableEq

/-- Where a scan stands after one more character. Only the given quotes open literals. -/
def Place.next (quotes : List Char) : Place → Char → Place
  | .code, c => if quotes.contains c then .inside c else .code
  | .inside q, c => if c = '\\' then .escaped q else if c = q then .code else .inside q
  | .escaped q, _ => .inside q

/-- The quotes that open literals in loose text. -/
def looseQuotes : List Char := ['"', '\'']

/-- The quote that opens literals in strict text. -/
def strictQuotes : List Char := ['"']

/-- A run of text inside or outside a string literal. -/
inductive Chunk where
  /-- A run outside literals. -/
  | code (text : Text)
  /-- A literal: its quote, what stands after it, and whether the quote closes it again. -/
  | literal (quote : Char) (body : Text) (closed : Bool)
  deriving DecidableEq

namespace Chunk

/-- The text of a chunk. -/
def text : Chunk → Text
  | .code t => t
  | .literal q body closed => q :: body ++ (if closed then [q] else [])

/-- The text of chunks in a row. -/
def join (chunks : List Chunk) : Text :=
  chunks.flatMap text

/-- The chunk of a run of code that was collected in reverse, if there is one. -/
def ofCode (reversed : Text) : List Chunk :=
  if reversed.isEmpty then [] else [.code reversed.reverse]

/-- Splits the rest of a text, given where the scan stands and what it has collected, in reverse, of
the current chunk. -/
def splitFrom : Place → Text → Text → List Chunk
  | .code, acc, [] => ofCode acc
  | .inside q, acc, [] => [.literal q acc.reverse false]
  | .escaped q, acc, [] => [.literal q acc.reverse false]
  | .code, acc, c :: r =>
    if looseQuotes.contains c then ofCode acc ++ splitFrom (.inside c) [] r
    else splitFrom .code (c :: acc) r
  | .inside q, acc, c :: r =>
    if c = '\\' then splitFrom (.escaped q) (c :: acc) r
    else if c = q then .literal q acc.reverse true :: splitFrom .code [] r
    else splitFrom (.inside q) (c :: acc) r
  | .escaped q, acc, c :: r => splitFrom (.inside q) (c :: acc) r

/-- Cuts a text into its chunks. -/
def split (t : Text) : List Chunk :=
  splitFrom .code [] t

/-- Changes the code of a text and leaves its literals alone. -/
def mapCode (f : Text → Text) (t : Text) : Text :=
  (split t).flatMap fun
    | .code c => f c
    | chunk => chunk.text

/-- Changes the chunks of a text one by one. -/
def mapChunks (f : Chunk → Text) (t : Text) : Text :=
  (split t).flatMap f

/-- No chunks make no text. -/
@[simp] theorem join_nil : join [] = [] := rfl

/-- The text of the first chunk comes first. -/
@[simp] theorem join_cons (c : Chunk) (cs : List Chunk) : join (c :: cs) = c.text ++ join cs := by
  simp [join]

/-- Chunks behind chunks make their texts one behind the other. -/
@[simp] theorem join_append (cs ds : List Chunk) : join (cs ++ ds) = join cs ++ join ds := by
  simp [join]

/-- Code that is kept in reverse is put in order. -/
@[simp] theorem join_ofCode (acc : Text) : join (ofCode acc) = acc.reverse := by
  unfold ofCode
  split
  · next h => simp_all
  · simp [text]

/-- What a scan has read of the current chunk. -/
def pending : Place → Text → Text
  | .code, acc => acc.reverse
  | .inside q, acc => q :: acc.reverse
  | .escaped q, acc => q :: acc.reverse

/-- Nothing is lost on the way: the chunks from a place on make up what is pending and the rest. -/
theorem join_splitFrom (place : Place) (acc t : Text) :
    join (splitFrom place acc t) = pending place acc ++ t := by
  induction t generalizing place acc with
  | nil => cases place <;> simp [splitFrom, pending, text]
  | cons c r ih =>
    cases place with
    | code =>
      simp only [splitFrom]
      split <;> simp [ih, pending]
    | inside q =>
      simp only [splitFrom]
      split
      · simp [ih, pending]
      · split
        · next h => simp [ih, pending, text, h]
        · simp [ih, pending]
    | escaped q => simp [splitFrom, ih, pending]

/-- The chunks of a text in a row are the text. -/
theorem join_split (t : Text) : join (split t) = t := by
  simp [split, join_splitFrom, pending]

end Chunk

end ShapedReply
