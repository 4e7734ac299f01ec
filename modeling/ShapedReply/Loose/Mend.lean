import ShapedReply.Loose.Chunk
import ShapedReply.Text.Word
import ShapedReply.Value.Reader
import ShapedReply.Value.Writer

/-!
# Mending loose documents

Five stages bring loose spellings back to strict value text: comments go, a comma before a closing
bracket goes, bare keys get quotes, single-quoted literals become double-quoted ones, and raw
control characters inside literals are escaped. Each stage works on a text alone and leaves the
inside of literals, or the code around them, as it is. A mended text counts only if it is strict.
-/

namespace ShapedReply

namespace Mend

open Text

/-! ## Comments -/

/-- Where comment stripping stands. -/
inductive Strip where
  /-- Outside literals and comments. -/
  | code
  /-- Inside a literal. -/
  | inside (quote : Char)
  /-- Inside a literal, right after a backslash. -/
  | escaped (quote : Char)
  /-- Inside a comment that ends with the line. -/
  | line
  /-- Inside a comment that ends with its mark. -/
  | block

/-- Strips the comments of the rest of a text. -/
def stripFrom : Strip → Text → Text
  | _, [] => []
  | .code, '/' :: '/' :: r => stripFrom .line r
  | .code, '/' :: '*' :: r => stripFrom .block r
  | .code, c :: r => c :: stripFrom (if looseQuotes.contains c then .inside c else .code) r
  | .inside q, c :: r =>
    c :: stripFrom (if c = '\\' then .escaped q else if c = q then .code else .inside q) r
  | .escaped q, c :: r => c :: stripFrom (.inside q) r
  | .line, c :: r => if c = '\n' then c :: stripFrom .code r else stripFrom .line r
  | .block, '*' :: '/' :: r => stripFrom .code r
  | .block, _ :: r => stripFrom .block r

/-- A text without its comments. A line comment ends before its line feed. -/
def stripComments (t : Text) : Text :=
  stripFrom .code t

/-! ## Commas -/

/-- Whether the first character after the blanks is a closing bracket. -/
def closesNext (t : Text) : Bool :=
  match trimStart t with
  | c :: _ => c == '}' || c == ']'
  | [] => false

/-- Code without the commas that only blanks separate from a closing bracket. -/
def dropCommas : Text → Text
  | [] => []
  | c :: r => if c = ',' && closesNext r then dropCommas r else c :: dropCommas r

/-- A text without trailing commas. -/
def dropTrailingCommas (t : Text) : Text :=
  Chunk.mapCode dropCommas t

/-! ## Bare keys -/

/-- Whether the rest of a bare key, blanks and a colon come next. -/
def endsKey (t : Text) : Bool :=
  match trimStart (t.dropWhile Text.isNamePart) with
  | c :: _ => c == ':'
  | [] => false

/-- Where key quoting stands. -/
inductive Keys where
  /-- Where no key can start. -/
  | elsewhere
  /-- After an opening brace or a comma, with only blanks since. -/
  | expected
  /-- Inside a key that is being quoted. -/
  | inside

/-- Quotes the bare keys of the rest of a run of code. -/
def quoteKeysFrom : Keys → Text → Text
  | .inside, [] => ['"']
  | _, [] => []
  | .inside, c :: r =>
    if Text.isNamePart c then c :: quoteKeysFrom .inside r
    else '"' :: c :: quoteKeysFrom .elsewhere r
  | .expected, c :: r =>
    if Text.isNameStart c && endsKey r then '"' :: c :: quoteKeysFrom .inside r
    else c :: quoteKeysFrom (if c = '{' || c = ',' || isBlank c then .expected else .elsewhere) r
  | .elsewhere, c :: r =>
    c :: quoteKeysFrom (if c = '{' || c = ',' then .expected else .elsewhere) r

/-- A text with quotes around its bare keys: names after an opening brace or a comma and before a
colon. -/
def quoteKeys (t : Text) : Text :=
  Chunk.mapCode (quoteKeysFrom .elsewhere) t

/-! ## Quotes -/

/-- The inside of a single-quoted literal as the inside of a double-quoted one. -/
def requoteBody : Text → Text
  | '\\' :: c :: r => (if c = '\'' then [c] else ['\\', c]) ++ requoteBody r
  | c :: r => (if c = '"' then ['\\', '"'] else [c]) ++ requoteBody r
  | [] => []

/-- A chunk with double quotes. -/
def requoteChunk : Chunk → Text
  | .literal q body closed =>
    if q = '\'' then '"' :: requoteBody body ++ (if closed then ['"'] else [])
    else (Chunk.literal q body closed).text
  | chunk => chunk.text

/-- A text with double quotes around all its literals. -/
def requote (t : Text) : Text :=
  Chunk.mapChunks requoteChunk t

/-! ## Control characters -/

/-- A character of a literal as strict text spells it. A raw carriage return is dropped. -/
def escapeControl (c : Char) : Text :=
  if c = '\n' then ['\\', 'n']
  else if c = '\t' then ['\\', 't']
  else if c = '\r' then []
  else if c.toNat < 0x20 then Writer.unitEscape c.toNat
  else [c]

/-- A chunk without raw control characters inside its literal. -/
def escapeChunk : Chunk → Text
  | .code t => t
  | chunk => chunk.text.flatMap escapeControl

/-- A text without raw control characters inside literals. -/
def escapeControls (t : Text) : Text :=
  Chunk.mapChunks escapeChunk t

/-! ## All stages -/

/-- A stage of mending. -/
inductive Stage where
  | comments
  | trailingCommas
  | bareKeys
  | singleQuotes
  | controlCharacters

/-- The stages in their order. -/
def stages : List Stage :=
  [.comments, .trailingCommas, .bareKeys, .singleQuotes, .controlCharacters]

/-- What a stage does to a text. -/
def Stage.apply : Stage → Text → Text
  | .comments => stripComments
  | .trailingCommas => dropTrailingCommas
  | .bareKeys => quoteKeys
  | .singleQuotes => requote
  | .controlCharacters => escapeControls

/-- A text after some stages, one after the other. -/
def applyAll (stages : List Stage) (t : Text) : Text :=
  stages.foldl (fun t stage => stage.apply t) t

end Mend

/-- A document mended by all stages, if that makes it strict. -/
def mend? (t : Text) : Option Text :=
  let mended := Text.trim (Mend.applyAll Mend.stages (Text.trim t))
  if isStrict mended then some mended else none

/-- A mended document is what the stages and trimming leave, and it is strict. -/
theorem mend?_eq_some_iff {t r : Text} : mend? t = some r ↔
    Text.trim (Mend.applyAll Mend.stages (Text.trim t)) = r ∧ isStrict r = true := by
  rw [mend?, Option.ite_none_right_eq_some, Option.some_inj]
  constructor
  · rintro ⟨hstrict, hmended⟩
    exact ⟨hmended, hmended ▸ hstrict⟩
  · rintro ⟨hmended, hstrict⟩
    exact ⟨hmended ▸ hstrict, hmended⟩

end ShapedReply
