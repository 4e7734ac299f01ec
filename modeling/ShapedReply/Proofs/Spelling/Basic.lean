import ShapedReply.Loose.Mend

/-!
# Documents in several spellings

A `Tree` is a document with everything that its texts may differ in: what stands between its tokens,
how each character of a string is spelled, which quotes its strings have, whether a key goes without
quotes, and where a comma stands before a closing bracket. A `Pen` says how these parts are written,
and `Tree.text` writes a tree with a pen.

* `Pen.strict` writes strict value text. Every strict text is written by it (see
  `Proofs/Spelling/Parsing`).
* `Pen.loose` writes the same tree with the relaxations that a `Looseness` allows: blanks and
  comments between tokens, a comma before a closing bracket, bare keys, single quotes, and raw
  control characters. With all of them, this is the relaxed text that mending has to bring back.

So a relaxation of a strict text is a second text of one tree, `Relaxes`. Whatever the pen, a tree
has one value, `Tree.value`.
-/

namespace ShapedReply.Spelling

open Text Reader

/-- What is said of all characters of a text is decided on those characters. Characters are finitely
many, so it could also be decided on all there are, which no evaluation gets through. -/
instance (priority := 2000) decidableForallMem (t : Text) (p : Char → Prop) [DecidablePred p] :
    Decidable (∀ c ∈ t, p c) :=
  List.decidableBAll p t

/-! ## Between the tokens -/

/-- What may stand between two tokens of relaxed text: a blank, a comment that ends with its line,
or a comment that ends with its mark. -/
inductive Piece where
  | blank (c : Char) (isBlank : isValueBlank c = true)
  | line (body : Text) (oneLine : '\n' ∉ body)
  | block (body : Text) (noMark : ¬ ['*', '/'] <:+: body)

/-- The text of a piece. -/
def Piece.text : Piece → Text
  | .blank c _ => [c]
  | .line body _ => '/' :: '/' :: (body ++ ['\n'])
  | .block body _ => '/' :: '*' :: (body ++ ['*', '/'])

/-- What is left of a piece without comments. The line feed behind a comment stays. -/
def Piece.residue : Piece → Text
  | .blank c _ => [c]
  | .line _ _ => ['\n']
  | .block _ _ => []

/-- The place between two tokens: the blanks of the strict text, and the pieces of the relaxed
one. -/
structure Gap where
  /-- The blanks of the strict text. -/
  strict : Text
  /-- They are value blanks. -/
  blank : ∀ c ∈ strict, isValueBlank c = true
  /-- The pieces of the relaxed text. -/
  loose : List Piece

/-- No blanks are blanks. -/
theorem blank_nil : ∀ c ∈ ([] : Text), isValueBlank c = true :=
  List.forall_mem_nil _

/-! ## Strings -/

/-- One character of a string, as strict text spells it. -/
inductive Glyph where
  /-- A character that stands for itself. -/
  | plain (c : Char) (isPlain : 0x20 ≤ c.toNat ∧ c ≠ '"' ∧ c ≠ '\\')
  /-- A backslash and a letter. -/
  | escape (c meaning : Char) (isEscape : simpleEscape? c = some meaning)
  /-- A code unit by four hexadecimal digits. -/
  | unit (a b c d : Char) (u : Nat) (isUnit : hexUnit? a b c d = some u)

namespace Glyph

/-- The strict text of a glyph. -/
def strict : Glyph → Text
  | .plain c _ => [c]
  | .escape c _ _ => ['\\', c]
  | .unit a b c d _ _ => ['\\', 'u', a, b, c, d]

/-- The code unit that a glyph spells. -/
def codeUnit : Glyph → Nat
  | .plain c _ => c.toNat
  | .escape _ meaning _ => meaning.toNat
  | .unit _ _ _ _ u _ => u

/-- Whether a code unit is a control character. -/
def isControl (u : Nat) : Bool := u < 0x20 || (0x7F ≤ u && u < 0xA0)

/-- The raw character that relaxed text may have in the place of an escape: a line feed, a tab, or
a control character other than the carriage return that is escaped by its code. -/
def raw? : Glyph → Option Char
  | .plain _ _ => none
  | .escape c meaning _ => if c = 'n' ∨ c = 't' then some meaning else none
  | .unit _ _ _ _ u _ => if isControl u && u != 0x0D then some (Char.ofNat u) else none

/-- The text of a glyph in a literal with the quote `q`. An apostrophe in single quotes has a
backslash. A glyph that is written `bare` goes without its backslash where that is possible: a
control character is raw, or escaped again if `raw` is not set, and a double quote in single quotes
stands for itself. -/
def text (q : Char) (raw : Bool) (g : Glyph) (bare : Bool) : Text :=
  match g with
  | .plain c _ => if c = '\'' && q = '\'' then ['\\', c] else [c]
  | g =>
    if bare then
      match g.raw? with
      | some c => if raw then [c] else Mend.escapeControl c
      | none => if q = '\'' && g.strict = ['\\', '"'] then ['"'] else g.strict
    else g.strict

/-- In double quotes a glyph that keeps its backslash is spelled as in strict text. -/
theorem text_strict (raw : Bool) (g : Glyph) : g.text '"' raw false = g.strict := by
  cases g with
  | plain c h => simp [Glyph.text, Glyph.strict]
  | escape c e h => rfl
  | unit a b c d u h => rfl

end Glyph

/-- A string: its glyphs, each with the choice to go without its backslash, and the choice of single
quotes. The choices are made in relaxed text only. -/
structure Quoted where
  /-- The glyphs with their choices. -/
  glyphs : List (Glyph × Bool)
  /-- Whether relaxed text has single quotes around the string. -/
  single : Bool

namespace Quoted

/-- The code units of a string. -/
def codeUnits (s : Quoted) : List Nat :=
  s.glyphs.map fun g => g.1.codeUnit

/-- The string that is meant. -/
def meaning (s : Quoted) : String :=
  String.ofList (joinUnits s.codeUnits)

/-- The inside of a string in strict text. -/
def strictBody (s : Quoted) : Text :=
  s.glyphs.flatMap fun g => g.1.strict

/-- The inside of a string in relaxed text. -/
def looseBody (q : Char) (raw : Bool) (s : Quoted) : Text :=
  s.glyphs.flatMap fun g => g.1.text q raw g.2

end Quoted

/-- Whether a text is a name: a letter or an underscore, and then letters, digits and
underscores. -/
def isName : Text → Bool
  | [] => false
  | c :: r => Text.isNameStart c && r.all Text.isNamePart

/-- A key of a map: a string, which may be written without quotes if it is a name. -/
structure Key where
  /-- The key with its quotes. -/
  quoted : Quoted
  /-- The name that stands for it in relaxed text, if it is written bare. -/
  bare : Option Text
  /-- What is written bare is a name, and the name of this key. -/
  isBare : ∀ name ∈ bare, isName name = true ∧ quoted.codeUnits = name.map Char.toNat

/-! ## Trees -/

/-- A token without parts and without quotes. -/
inductive Word where
  | null
  | bool (b : Bool)
  /-- A number literal: a text that reads as a number to its end. -/
  | number (text : Text) (value : Value) (reads : Reader.number text = .ok (value, []))

/-- The text of a word. -/
def Word.text : Word → Text
  | .null => ['n', 'u', 'l', 'l']
  | .bool true => ['t', 'r', 'u', 'e']
  | .bool false => ['f', 'a', 'l', 's', 'e']
  | .number t _ _ => t

/-- The value of a word. -/
def Word.value : Word → Value
  | .null => .null
  | .bool b => .bool b
  | .number _ v _ => v

/-- The two kinds of containers. -/
inductive Container where
  | array
  | map
  deriving DecidableEq

/-- The bracket that opens a container. -/
def Container.opener : Container → Char
  | .array => '['
  | .map => '{'

/-- The bracket that closes a container. -/
def Container.closer : Container → Char
  | .array => ']'
  | .map => '}'

/-- The container with the given entries. An array has no use for their keys; in a map a repeated
key keeps its first place and its last value. -/
def Container.value : Container → List (String × Value) → Value
  | .array, entries => .array (entries.map (·.2))
  | .map, entries => .map (Table.ofList entries)

/-- What stands before the value of an entry: a gap in an array, and a key with its colon in a
map. -/
inductive Head : Container → Type where
  | item (before : Gap) : Head .array
  | member (before : Gap) (key : Key) (beforeColon afterColon : Gap) : Head .map

/-- The key of an entry; an item of an array has none. -/
def Head.name {k : Container} : Head k → String
  | .item _ => ""
  | .member _ key _ _ => key.quoted.meaning

mutual

/-- A value with its spellings. -/
inductive Tree where
  | word (w : Word)
  | string (s : Quoted)
  | empty (k : Container) (inside : Gap)
  | filled (k : Container) (entries : Entries k)

/-- The entries of a container, up to its closing bracket. Before the bracket relaxed text may have
a comma, with a gap of its own. -/
inductive Entries : Container → Type where
  | last {k : Container} (head : Head k) (item : Tree) (after : Gap)
      (trailing : Option (List Piece)) : Entries k
  | more {k : Container} (head : Head k) (item : Tree) (after : Gap) (rest : Entries k) : Entries k

end

mutual

/-- The value of a tree. -/
def Tree.value : Tree → Value
  | .word w => w.value
  | .string s => .str s.meaning
  | .empty k _ => k.value []
  | .filled k es => k.value es.pairs

/-- The entries of a container, with their keys. -/
def Entries.pairs {k : Container} : Entries k → List (String × Value)
  | .last head item _ _ => [(head.name, item.value)]
  | .more head item _ rest => (head.name, item.value) :: rest.pairs

end

/-! ## Pens -/

/-- How the parts of a tree are written. -/
structure Pen where
  /-- What stands between two tokens. -/
  gap : Gap → Text
  /-- What stands between the gap behind the last entry and the closing bracket. -/
  trailing : Option (List Piece) → Text
  /-- How a key is written. -/
  key : Key → Text
  /-- How a string is written. -/
  string : Quoted → Text

/-- What stands before the value of an entry. -/
def Head.text (pen : Pen) {k : Container} : Head k → Text
  | .item before => pen.gap before
  | .member before key beforeColon afterColon =>
    pen.gap before ++ pen.key key ++ pen.gap beforeColon ++ ':' :: pen.gap afterColon

mutual

/-- The text of a tree. -/
def Tree.text (pen : Pen) : Tree → Text
  | .word w => w.text
  | .string s => pen.string s
  | .empty k inside => k.opener :: (pen.gap inside ++ [k.closer])
  | .filled k es => k.opener :: es.text pen

/-- The text of the entries of a container, with the closing bracket. -/
def Entries.text (pen : Pen) {k : Container} : Entries k → Text
  | .last head item after trailing =>
    head.text pen ++ item.text pen ++ pen.gap after ++ pen.trailing trailing ++ [k.closer]
  | .more head item after rest =>
    head.text pen ++ item.text pen ++ pen.gap after ++ ',' :: rest.text pen

end

/-- The pen of strict text. -/
def Pen.strict : Pen where
  gap g := g.strict
  trailing _ := []
  key k := '"' :: (k.quoted.strictBody ++ ['"'])
  string s := '"' :: (s.strictBody ++ ['"'])

/-! Strict text, token by token. -/

/-- The strict text of a key, with its colon and the gaps around them. -/
theorem Head.text_strict_member (before : Gap) (key : Key) (beforeColon afterColon : Gap) :
    Head.text .strict (.member before key beforeColon afterColon) =
      before.strict ++ ('"' :: (key.quoted.strictBody ++ ['"']) ++
        (beforeColon.strict ++ ([':'] ++ afterColon.strict))) := by
  simp [Head.text, Pen.strict]

/-- The strict text of the last entry ends with the closing bracket. -/
theorem Entries.text_strict_last {k : Container} (head : Head k) (item : Tree) (after : Gap)
    (trailing : Option (List Piece)) : Entries.text .strict (.last head item after trailing) =
      head.text .strict ++ (item.text .strict ++ (after.strict ++ [k.closer])) := by
  simp [Entries.text, Pen.strict]

/-- The strict text of an entry that others follow ends with a comma. -/
theorem Entries.text_strict_more {k : Container} (head : Head k) (item : Tree) (after : Gap)
    (rest : Entries k) : Entries.text .strict (.more head item after rest) =
      head.text .strict ++
        (item.text .strict ++ (after.strict ++ ([','] ++ rest.text .strict))) := by
  simp [Entries.text, Pen.strict]

/-- Which relaxations a text has. -/
structure Looseness where
  /-- Comments between the tokens. -/
  comments : Bool
  /-- Commas before closing brackets. -/
  commas : Bool
  /-- Keys without quotes. -/
  bareKeys : Bool
  /-- Strings in single quotes. -/
  singleQuotes : Bool
  /-- Raw control characters in strings. -/
  rawControls : Bool

namespace Looseness

/-- All relaxations. -/
def full : Looseness := ⟨true, true, true, true, true⟩

/-- The pieces between two tokens. -/
def pieces (l : Looseness) (ps : List Piece) : Text :=
  ps.flatMap fun p => if l.comments then p.text else p.residue

/-- The quote of a string. -/
def quote (l : Looseness) (s : Quoted) : Char :=
  if s.single && l.singleQuotes then '\'' else '"'

/-- A string with its quotes. -/
def string (l : Looseness) (s : Quoted) : Text :=
  l.quote s :: (s.looseBody (l.quote s) l.rawControls ++ [l.quote s])

end Looseness

/-- The pen of relaxed text. -/
def Pen.loose (l : Looseness) : Pen where
  gap g := l.pieces g.loose
  trailing
    | none => []
    | some ps => (if l.commas then [','] else []) ++ l.pieces ps
  key k := match k.bare with
    | none => l.string k.quoted
    | some name => if l.bareKeys then name else '"' :: (name ++ ['"'])
  string s := l.string s

/-! ## Documents -/

/-- The text of a comment that no line feed ends, if there is one. -/
def remarkText : Option Text → Text
  | some body => '/' :: '/' :: body
  | none => []

/-- A document: a tree between two gaps. Relaxed text may end with a comment that no line feed
ends. -/
structure Document where
  /-- What stands before the document. -/
  before : Gap
  /-- The document itself. -/
  root : Tree
  /-- What stands behind the document. -/
  after : Gap
  /-- A comment at the very end of relaxed text. -/
  remark : Option Text
  /-- That comment has one line. -/
  oneLine : ∀ body ∈ remark, '\n' ∉ body

namespace Document

/-- The strict text of a document. -/
def strict (d : Document) : Text :=
  d.before.strict ++ d.root.text .strict ++ d.after.strict

/-- The relaxed text of a document. -/
def loose (d : Document) : Text :=
  Looseness.full.pieces d.before.loose ++ d.root.text (.loose .full)
    ++ Looseness.full.pieces d.after.loose ++ remarkText d.remark

end Document

/-- `Relaxes u t`: the text `t` is the strict text `u` with any number of relaxations. -/
def Relaxes (u t : Text) : Prop :=
  ∃ d : Document, d.strict = u ∧ d.loose = t

end ShapedReply.Spelling
