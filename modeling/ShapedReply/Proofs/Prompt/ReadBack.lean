import ShapedReply.Prompt.Described
import ShapedReply.Proofs.Reading.WrittenNumber
import ShapedReply.Proofs.Reading.WrittenString
import ShapedReply.Proofs.Schema.Acceptance

/-!
# Expressions can be read back

An expression is meant for a reader who sees nothing but its text, so the text should say which
values are accepted. This file gives such a reader: it goes over the text once, character by
character, keeps the choices that are open, and ends with a schema (`readBack`). **What is read back
from the expression of a schema accepts what the schema accepts** (`accepts_readBack`), so two
schemas with the same expression accept the same values (`check_iff_of_express_eq`).

The schemas are those of scalars, literals, enums, lists, optional ones and choices. One combination
is left out: a list of an enum with several values is written without parentheses, and reads as a
choice of which only the last member is a list (`express_ambiguous`). Literals in which the halves
of a surrogate pair stand side by side are left out too; the characters U+105800 to U+105FFF count
as halves in literals. A schema with a literal that cannot be written has no expression
(`express_eq_ok_iff`), so nothing needs to be asked of the literals apart.

* `Reading`, `Reading.step`: the reader, and one step of it.
* `Reads`: what a text adds to a reading, wherever it stands; one lemma for each way to put texts
  together.
* `Agrees`: two schemas accept the same values, whatever names mean.
* `Tells`: what a text is read as agrees with a schema.
* `tells_expression`: the expression of a schema tells it.
-/

namespace ShapedReply.Prompt

open Text Reader

/-! ## The reader -/

/-- Where a reader is: outside of quotes, inside, or inside behind a backslash. -/
inductive Quotes where
  | outside
  | inside
  | escaped

/-- A schema by its name; what has none is one of the truth values. -/
def noun : String → Schema
  | "string" => .string
  | "int" => .int
  | "float" => .float
  | "bool" => .bool
  | "null" => .null
  | "true" => .literal (.bool true)
  | _ => .literal (.bool false)

/-- The string behind its opening quote. -/
def unquoted (t : Text) : String :=
  match Reader.string t with
  | .ok (s, _) => s
  | .error _ => ""

/-- The schema that a word stands for: a literal, or a name. -/
def ofWord : Text → Schema
  | [] => .anyOf []
  | '"' :: r => .literal (.str (unquoted r))
  | '-' :: r => .literal (.int (-(digitsValue r : Int)))
  | c :: r =>
    if Text.isAsciiDigit c then .literal (.int (digitsValue (c :: r)))
    else noun (String.ofList (c :: r))

/-- A choice that is being read. -/
structure Reading where
  /-- The choices around it, innermost first, by the members before the one that is open. -/
  outer : List (List Schema)
  /-- The members that are complete. -/
  members : List Schema
  /-- The member that is being read, as far as it goes. -/
  last : Schema
  /-- The word that is being read. -/
  word : Text
  /-- Whether a quote is open. -/
  quotes : Quotes

namespace Reading

/-- Nothing read yet. -/
def start : Reading := ⟨[], [], .anyOf [], [], .outside⟩

/-- The reading when a word is read as its last member. -/
def atWord (r : Reading) (word : Text) (quotes : Quotes) : Reading :=
  { r with last := ofWord word, word := word, quotes := quotes }

/-- One more character. -/
def step (r : Reading) (c : Char) : Reading :=
  match r.quotes with
  | .escaped => r.atWord (r.word ++ [c]) .inside
  | .inside =>
    r.atWord (r.word ++ [c]) (if c = '"' then .outside else if c = '\\' then .escaped else .inside)
  | .outside => match c with
    | '(' => { r with outer := r.members :: r.outer, members := [], last := .anyOf [], word := [] }
    | ')' => { r with outer := r.outer.tail, members := r.outer.headD [],
                      last := .anyOf (r.members ++ [r.last]), word := [] }
    | ']' => { r with last := .array r.last, word := [] }
    | '|' => { r with members := r.members ++ [r.last], word := [] }
    | '[' | ' ' => { r with word := [] }
    | c => r.atWord (r.word ++ [c]) (if c = '"' then .inside else .outside)

end Reading

/-- The schema that an expression is read as. -/
def readBack (t : Text) : Schema :=
  let r := t.foldl Reading.step .start
  .anyOf (r.members ++ [r.last])

example : readBack "(int | null)[] | \"x | y\"[][]".toList =
    .anyOf [.array (.anyOf [.int, .null]), .array (.array (.literal (.str "x | y")))] := by
  cbv

/-! ## What a text adds to a reading -/

/-- From any place outside of words, a text adds complete members to a reading and leaves one
open. -/
def Reads (t : Text) (ms : List Schema) (s : Schema) : Prop :=
  ∀ r : Reading, r.word = [] → r.quotes = .outside →
    ∃ w, t.foldl Reading.step r = { r with members := r.members ++ ms, last := s, word := w }

section reads

variable {t u : Text} {ms ns : List Schema} {a b : Schema}

/-- A bar completes a member. -/
theorem Reads.bar (ht : Reads t ms a) (hu : Reads u ns b) :
    Reads (t ++ ([' ', '|', ' '] ++ u)) (ms ++ a :: ns) b := by
  rintro ⟨outer, members, last, word, quotes⟩ rfl rfl
  obtain ⟨w, hw⟩ := ht ⟨outer, members, last, [], .outside⟩ rfl rfl
  obtain ⟨w', hw'⟩ := hu ⟨outer, members ++ ms ++ [a], a, [], .outside⟩ rfl rfl
  refine ⟨w', ?_⟩
  rw [List.foldl_append, hw, List.foldl_append]
  refine hw'.trans ?_
  simp

/-- Brackets behind a single member make a list of it. -/
theorem Reads.list (ht : Reads t [] a) : Reads (t ++ ['[', ']']) [] (.array a) := by
  rintro ⟨outer, members, last, word, quotes⟩ rfl rfl
  obtain ⟨w, hw⟩ := ht ⟨outer, members, last, [], .outside⟩ rfl rfl
  refine ⟨[], ?_⟩
  rw [List.foldl_append, hw]
  rfl

/-- Parentheses make a single member of a choice. -/
theorem Reads.group (ht : Reads t ms a) : Reads ('(' :: (t ++ [')'])) [] (.anyOf (ms ++ [a])) := by
  rintro ⟨outer, members, last, word, quotes⟩ rfl rfl
  obtain ⟨w, hw⟩ := ht ⟨members :: outer, [], .anyOf [], [], .outside⟩ rfl rfl
  refine ⟨[], ?_⟩
  show (t ++ [')']).foldl Reading.step ⟨members :: outer, [], .anyOf [], [], .outside⟩ = _
  rw [List.foldl_append, hw]
  simp [Reading.step]

/-- What ends a word. -/
def wordEnds : List Char := ['(', ')', '[', ']', '|', ' ', '"']

/-- Whether a character may stand in a word without quotes. -/
def isBare (c : Char) : Bool := !(wordEnds.contains c)

/-- A character of a word is added to the word. -/
theorem step_isBare {r : Reading} {c : Char} (hr : r.quotes = .outside) (hc : isBare c = true) :
    r.step c = r.atWord (r.word ++ [c]) .outside := by
  simp only [isBare, wordEnds, List.contains_cons, List.contains_nil, Bool.or_false,
    Bool.not_eq_true', Bool.or_eq_false_iff, beq_eq_false_iff_ne] at hc
  obtain ⟨hopen, hclose, hleft, hright, hbar, hblank, hquote⟩ := hc
  rw [Reading.step, hr]
  simp [hquote]
  all_goals assumption

/-- A word is read to its end. -/
theorem foldl_atWord {w : Text} (hw : ∀ c ∈ w, isBare c = true) (r : Reading) (u : Text) :
    w.foldl Reading.step (r.atWord u .outside) = r.atWord (u ++ w) .outside := by
  induction w generalizing u with
  | nil => rw [List.append_nil, List.foldl_nil]
  | cons c w ih =>
    rw [List.forall_mem_cons] at hw
    have hstep : (r.atWord u .outside).step c = r.atWord (u ++ [c]) .outside :=
      step_isBare rfl hw.1
    rw [List.foldl_cons, hstep, ih hw.2, List.append_assoc, List.singleton_append]

/-- A word is a member. -/
theorem reads_word {w : Text} (hne : w ≠ []) (hw : ∀ c ∈ w, isBare c = true) :
    Reads w [] (ofWord w) := by
  rintro ⟨outer, members, last, word, quotes⟩ rfl rfl
  obtain ⟨c, w, rfl⟩ := List.exists_cons_of_ne_nil hne
  rw [List.forall_mem_cons] at hw
  refine ⟨c :: w, ?_⟩
  rw [List.foldl_cons, step_isBare rfl hw.1]
  refine (foldl_atWord hw.2 _ _).trans ?_
  simp [Reading.atWord]

/-- What stands in quotes is read to its end. -/
theorem foldl_inside {w : Text} (h : Sealed '"' w) (r : Reading) (u : Text) :
    w.foldl Reading.step (r.atWord u .inside) = r.atWord (u ++ w) .inside := by
  induction h generalizing u with
  | nil => rw [List.append_nil, List.foldl_nil]
  | @plain c w hslash hquote _ ih =>
    have hstep : (r.atWord u .inside).step c = r.atWord (u ++ [c]) .inside := by
      simp [Reading.step, Reading.atWord, hslash, hquote]
    rw [List.foldl_cons, hstep, ih, List.append_assoc, List.singleton_append]
  | @escaped c w _ ih =>
    have hstep : ((r.atWord u .inside).step '\\').step c = r.atWord (u ++ ['\\', c]) .inside := by
      simp [Reading.step, Reading.atWord]
    rw [List.foldl_cons, List.foldl_cons, hstep, ih, List.append_assoc]
    rfl

/-- A string in quotes is a member, whatever it has inside. -/
theorem reads_quoted {body : Text} (h : Sealed '"' body) :
    Reads ('"' :: (body ++ ['"'])) [] (.literal (.str (unquoted (body ++ ['"'])))) := by
  rintro ⟨outer, members, last, word, quotes⟩ rfl rfl
  refine ⟨'"' :: (body ++ ['"']), ?_⟩
  rw [List.foldl_cons, List.foldl_append]
  have hopen : Reading.step ⟨outer, members, last, [], .outside⟩ '"' =
      Reading.atWord ⟨outer, members, last, [], .outside⟩ ['"'] .inside := rfl
  rw [hopen, foldl_inside h]
  simp [Reading.step, Reading.atWord, ofWord]

end reads

/-! ## What a text tells -/

/-- Whether a schema is a name of the catalog. -/
def isName : Schema → Bool
  | .ref _ => true
  | _ => false

/-- A schema without names of the catalog and with literals that can be written, at every depth.
Checks against it find nothing or end with a report, whatever names mean. -/
def IsSelfContained (s : Schema) : Prop :=
  s.everywhere (fun n => n.hasWritableLiteral && !isName n) = true

/-- What is asked of a self-contained schema, its parts apart. -/
theorem isSelfContained_iff {s : Schema} :
    IsSelfContained s ↔
      (s.hasWritableLiteral = true ∧ isName s = false) ∧ ∀ x ∈ s.parts, IsSelfContained x := by
  rw [IsSelfContained, Schema.everywhere_iff, Bool.and_eq_true, Bool.not_eq_true']
  rfl

/-- A choice is self-contained if its members are. -/
theorem isSelfContained_anyOf {members : List Schema} :
    IsSelfContained (.anyOf members) ↔ ∀ m ∈ members, IsSelfContained m :=
  isSelfContained_iff.trans (and_iff_right ⟨rfl, rfl⟩)

/-- A check against a self-contained schema finds nothing or ends with a report. -/
theorem IsSelfContained.check_ne_integerUnwritable {s : Schema} (h : IsSelfContained s)
    (resolve : Resolver) (v : Value) : check resolve v s ≠ .error .integerUnwritable := by
  -- The way to a literal leads through no name, so nothing is asked of the definitions.
  have hnone : ¬ s.MeetsUnwritable resolve :=
    Schema.not_meetsUnwritable (fun _ hn => (Bool.and_eq_true_iff.mp hn).1)
      (fun _ _ hname => by cases hname) h
  exact fun hfails => hnone (Check.meetsUnwritable_of_check v s hfails)

/-- A choice of self-contained members accepts what one of them accepts. -/
theorem accepts_anyOf_of_isSelfContained {members : List Schema} (resolve : Resolver) (v : Value)
    (h : IsSelfContained (.anyOf members)) :
    Accepts resolve v (.anyOf members) ↔ ∃ m ∈ members, Accepts resolve v m :=
  accepts_anyOf fun m hm => (isSelfContained_anyOf.mp h m hm).check_ne_integerUnwritable resolve v

/-- Two self-contained schemas accept the same values, whatever names mean. -/
structure Agrees (a b : Schema) : Prop where
  /-- The first one is self-contained. -/
  left : IsSelfContained a
  /-- The second one is self-contained. -/
  right : IsSelfContained b
  /-- They accept the same values. -/
  accepts_iff : ∀ resolve v, Accepts resolve v a ↔ Accepts resolve v b

namespace Agrees

variable {a b c : Schema}

/-- A self-contained schema agrees with itself. -/
theorem refl (h : IsSelfContained a) : Agrees a a :=
  ⟨h, h, fun _ _ => Iff.rfl⟩

/-- Agreement goes both ways. -/
theorem symm (h : Agrees a b) : Agrees b a :=
  ⟨h.right, h.left, fun resolve v => (h.accepts_iff resolve v).symm⟩

/-- Agreement goes on. -/
theorem trans (hab : Agrees a b) (hbc : Agrees b c) : Agrees a c :=
  ⟨hab.left, hbc.right,
    fun resolve v => (hab.accepts_iff resolve v).trans (hbc.accepts_iff resolve v)⟩

/-- A choice of one member agrees with it. -/
theorem singleton (h : IsSelfContained a) : Agrees (.anyOf [a]) a := by
  have hanyOf : IsSelfContained (.anyOf [a]) :=
    isSelfContained_anyOf.mpr (List.forall_mem_singleton.mpr h)
  refine ⟨hanyOf, h, fun resolve v => ?_⟩
  rw [accepts_anyOf_of_isSelfContained resolve v hanyOf]
  simp only [List.mem_singleton, exists_eq_left]

/-- Choices that agree with a member and with the other members agree together with all of them. -/
theorem append {ms ns ss : List Schema} (hms : Agrees (.anyOf ms) a)
    (hns : Agrees (.anyOf ns) (.anyOf ss)) : Agrees (.anyOf (ms ++ ns)) (.anyOf (a :: ss)) := by
  have hleft : IsSelfContained (.anyOf (ms ++ ns)) :=
    isSelfContained_anyOf.mpr (List.forall_mem_append.mpr
      ⟨isSelfContained_anyOf.mp hms.left, isSelfContained_anyOf.mp hns.left⟩)
  have hright : IsSelfContained (.anyOf (a :: ss)) :=
    isSelfContained_anyOf.mpr (List.forall_mem_cons.mpr
      ⟨hms.right, isSelfContained_anyOf.mp hns.right⟩)
  refine ⟨hleft, hright, fun resolve v => ?_⟩
  have hfirst := hms.accepts_iff resolve v
  have hothers := hns.accepts_iff resolve v
  rw [accepts_anyOf_of_isSelfContained resolve v hms.left] at hfirst
  rw [accepts_anyOf_of_isSelfContained resolve v hns.left,
    accepts_anyOf_of_isSelfContained resolve v hns.right] at hothers
  rw [accepts_anyOf_of_isSelfContained resolve v hleft,
    accepts_anyOf_of_isSelfContained resolve v hright, List.exists_mem_cons_iff, ← hfirst,
      ← hothers]
  simp only [List.mem_append, or_and_right, exists_or]

/-- Lists of what agrees agree. -/
theorem array (h : Agrees a b) : Agrees (.array a) (.array b) where
  left := isSelfContained_iff.mpr ⟨⟨rfl, rfl⟩, List.forall_mem_singleton.mpr h.left⟩
  right := isSelfContained_iff.mpr ⟨⟨rfl, rfl⟩, List.forall_mem_singleton.mpr h.right⟩
  accepts_iff resolve v := by simp only [accepts_array, h.accepts_iff]

/-- A choice between a schema and null agrees with the optional schema. -/
theorem optional (h : IsSelfContained a) : Agrees (.anyOf [a, .null]) (.optional a) := by
  have hchoice : IsSelfContained (.anyOf [a, .null]) :=
    isSelfContained_anyOf.mpr (List.forall_mem_cons.mpr ⟨h, List.forall_mem_singleton.mpr rfl⟩)
  have hoptional : IsSelfContained (.optional a) :=
    isSelfContained_iff.mpr ⟨⟨rfl, rfl⟩, List.forall_mem_singleton.mpr h⟩
  refine ⟨hchoice, hoptional, fun resolve v => ?_⟩
  rw [accepts_anyOf_of_isSelfContained resolve v hchoice, accepts_optional]
  simp only [List.exists_mem_cons_iff, List.mem_singleton, exists_eq_left, accepts_null]
  exact or_comm

end Agrees

/-- A text tells a schema: it is read as members that agree together with the schema. -/
def Tells (t : String) (s : Schema) : Prop :=
  ∃ ms a, Reads t.toList ms a ∧ Agrees (.anyOf (ms ++ [a])) s

/-- A text tells a schema by a single member. -/
def TellsAlone (t : String) (s : Schema) : Prop :=
  ∃ a, Reads t.toList [] a ∧ Agrees a s

section tells

variable {t u : String} {a b : Schema} {resolve : Resolver} {v : Value}

/-- A literal of a string accepts that string. -/
theorem accepts_literal_str {t : String} : Accepts resolve v (.literal (.str t)) ↔ v = .str t := by
  rw [accepts_literal]
  cases v with
  | str u =>
    rw [Check.isLiteral, beq_iff_eq, Value.str.injEq]
    exact eq_comm
  | _ => simp [Check.isLiteral]

/-- A text that tells a schema tells what agrees with it. -/
theorem Tells.congr (h : Tells t a) (hab : Agrees a b) : Tells t b := by
  obtain ⟨ms, x, hreads, hx⟩ := h
  exact ⟨ms, x, hreads, hx.trans hab⟩

/-- A text that tells a schema by a single member tells so what agrees with it. -/
theorem TellsAlone.congr (h : TellsAlone t a) (hab : Agrees a b) : TellsAlone t b := by
  obtain ⟨x, hreads, hx⟩ := h
  exact ⟨x, hreads, hx.trans hab⟩

/-- A single member is a choice of one. -/
theorem TellsAlone.tells (h : TellsAlone t a) : Tells t a := by
  obtain ⟨x, hreads, hx⟩ := h
  exact ⟨[], x, hreads, (Agrees.singleton hx.left).trans hx⟩

/-- Texts with a bar between them tell a choice. -/
theorem Tells.bar {ss : List Schema} (ht : Tells t a) (hu : Tells u (.anyOf ss)) :
    Tells (t ++ " | " ++ u) (.anyOf (a :: ss)) := by
  obtain ⟨ms, x, hreads, hx⟩ := ht
  obtain ⟨ns, y, hreads', hy⟩ := hu
  refine ⟨ms ++ x :: ns, y, ?_, ?_⟩
  · rw [String.toList_append, String.toList_append, List.append_assoc]
    exact hreads.bar hreads'
  · have hsplit : ms ++ x :: ns ++ [y] = (ms ++ [x]) ++ (ns ++ [y]) := by simp
    rw [hsplit]
    exact hx.append hy

/-- A text with brackets behind it tells a list. -/
theorem TellsAlone.list (ht : TellsAlone t a) : TellsAlone (t ++ "[]") (.array a) := by
  obtain ⟨x, hreads, hx⟩ := ht
  refine ⟨.array x, ?_, hx.array⟩
  rw [String.toList_append]
  exact hreads.list

/-- A text in parentheses tells by a single member what it tells. -/
theorem Tells.group (ht : Tells t a) : TellsAlone ("(" ++ t ++ ")") a := by
  obtain ⟨ms, x, hreads, hx⟩ := ht
  refine ⟨.anyOf (ms ++ [x]), ?_, hx⟩
  rw [String.toList_append, String.toList_append]
  exact hreads.group

/-- Texts with bars between them tell a choice. -/
theorem tells_joinWith (parts : List (String × Schema)) (hne : parts ≠ [])
    (h : ∀ p ∈ parts, Tells p.1 p.2) :
    Tells (joinWith " | " (parts.map (·.1))) (.anyOf (parts.map (·.2))) := by
  induction parts with
  | nil => exact absurd rfl hne
  | cons p parts ih =>
    rw [List.forall_mem_cons] at h
    cases parts with
    | nil =>
      obtain ⟨ms, x, hreads, hx⟩ := h.1
      exact ⟨ms, x, hreads, hx.trans (Agrees.singleton hx.right).symm⟩
    | cons q parts => exact h.1.bar (ih (List.cons_ne_nil q parts) h.2)

/-- What is read back from a text that tells a schema accepts what the schema accepts. -/
theorem Tells.accepts_readBack (ht : Tells t a) :
    Accepts resolve v (readBack t.toList) ↔ Accepts resolve v a := by
  obtain ⟨ms, x, hreads, hx⟩ := ht
  obtain ⟨w, hw⟩ := hreads .start rfl rfl
  rw [readBack, hw]
  exact hx.accepts_iff resolve v

end tells

/-! ## Expressions -/

/-- A word tells the schema that it stands for. -/
theorem tellsAlone_word {t : String} {s : Schema} (hne : t.toList ≠ [])
    (hw : ∀ c ∈ t.toList, isBare c = true) (hs : ofWord t.toList = s) (hself : IsSelfContained s) :
    TellsAlone t s :=
  ⟨s, hs ▸ reads_word hne hw, .refl hself⟩

/-- The names of scalars and of the truth values. -/
def nouns : List String := ["string", "int", "float", "bool", "null", "true", "false"]

/-- Names of scalars and of the truth values tell these. -/
theorem tellsAlone_noun : ∀ name ∈ nouns, TellsAlone name (noun name) := by
  simp only [nouns, List.forall_mem_cons]
  refine ⟨?_, ?_, ?_, ?_, ?_, ?_, ?_, List.forall_mem_nil _⟩ <;>
    exact tellsAlone_word (by decide) (by decide) rfl rfl

/-- A string in quotes tells its literal. -/
theorem tellsAlone_string (style : WriteStyle) {s : String}
    (h : style.ascii = true → Surrogate.areApart s.toList = true) :
    TellsAlone (String.ofList (Writer.string style s)) (.literal (.str s)) := by
  have hunquoted : unquoted (s.toList.flatMap (Writer.char style) ++ ['"']) = s := by
    rw [unquoted, string_written h]
  refine ⟨.literal (.str s), ?_, .refl rfl⟩
  have hreads := reads_quoted (sealed_written style s)
  rw [hunquoted] at hreads
  rw [String.toList_ofList]
  exact hreads

/-- Digits stand in words without quotes. -/
theorem isBare_of_isAsciiDigit {c : Char} (h : Text.isAsciiDigit c = true) : isBare c = true := by
  have hall : ∀ c ∈ Spelling.digits, isBare c = true := by decide
  exact hall c (Spelling.mem_digits h)

/-- A whole number that can be written tells its literal. -/
theorem tellsAlone_integer {n : Int} (hn : isWritableInteger n = true) :
    TellsAlone (String.ofList (Writer.integer n)) (.literal (.int n)) := by
  obtain ⟨c, r, hdigits, -⟩ := exists_toDigits_eq_cons n.natAbs
  have hparts : ∀ d ∈ Nat.toDigits 10 n.natAbs, isBare d = true :=
    fun d hd => isBare_of_isAsciiDigit (isAsciiDigit_of_mem_toDigits hd)
  have hvalue := digitsValue_toDigits n.natAbs
  have hself : IsSelfContained (.literal (.int n)) :=
    isSelfContained_iff.mpr ⟨⟨hn, rfl⟩, List.forall_mem_nil _⟩
  by_cases hneg : n < 0
  · have htext : Writer.integer n = '-' :: Nat.toDigits 10 n.natAbs := by
      rw [Writer.integer, if_pos hneg, List.singleton_append]
    rw [htext]
    refine tellsAlone_word ?_ ?_ ?_ hself <;> rw [String.toList_ofList]
    · exact List.cons_ne_nil _ _
    · exact List.forall_mem_cons.mpr ⟨rfl, hparts⟩
    · rw [ofWord, hvalue]
      congr
      omega
  · have htext : Writer.integer n = Nat.toDigits 10 n.natAbs := by
      rw [Writer.integer, if_neg hneg, List.nil_append]
    rw [htext]
    refine tellsAlone_word ?_ ?_ ?_ hself <;> rw [String.toList_ofList]
    · rw [hdigits]
      exact List.cons_ne_nil _ _
    · exact hparts
    · have hdigit : Text.isAsciiDigit c = true :=
        isAsciiDigit_of_mem_toDigits (hdigits ▸ List.mem_cons_self)
      have hstart : c ≠ '"' ∧ c ≠ '-' := by
        constructor
        · rintro rfl
          cases hdigit
        · rintro rfl
          cases hdigit
      rw [hdigits] at hvalue ⊢
      rw [ofWord, if_pos hdigit, hvalue]
      · congr
        omega
      · exact hstart.1
      · exact hstart.2

/-- A choice of literals tells their enum. -/
theorem tells_alternatives (values : List String) (aliases : List (String × String)) :
    Tells (alternatives values) (.enum values aliases) ∧
      (values.length ≤ 1 → TellsAlone (alternatives values) (.enum values aliases)) := by
  have hliteral (value : String) : TellsAlone (Value.str value).toLine (.literal (.str value)) :=
    tellsAlone_string {} (by simp)
  cases values with
  | nil =>
    have hall : TellsAlone (alternatives []) (.enum [] aliases) :=
      (tellsAlone_noun "string" (by simp [nouns])).congr
        ⟨rfl, rfl, fun _ _ => by simp [noun, accepts_string, accepts_enum]⟩
    exact ⟨hall.tells, fun _ => hall⟩
  | cons value values =>
    constructor
    · have hparts : Tells (alternatives (value :: values))
          (.anyOf ((value :: values).map fun t => .literal (.str t))) := by
        have h := tells_joinWith
          ((value :: values).map fun t => ((Value.str t).toLine, .literal (.str t)))
          (by simp) (by simp [(hliteral _).tells])
        rwa [List.map_map, List.map_map] at h
      have hliterals :
          IsSelfContained (.anyOf ((value :: values).map fun t => .literal (.str t))) :=
        isSelfContained_anyOf.mpr (List.forall_mem_map.mpr fun _ _ => rfl)
      refine hparts.congr ⟨hliterals, rfl, fun resolve v => ?_⟩
      rw [accepts_anyOf_of_isSelfContained resolve v hliterals, accepts_enum]
      constructor
      · rintro ⟨s, hs, haccepts⟩
        obtain ⟨t, ht, rfl⟩ := List.mem_map.mp hs
        exact ⟨t, accepts_literal_str.mp haccepts, .inr ht⟩
      · rintro ⟨t, rfl, hnone | ht⟩
        · cases hnone
        · exact ⟨_, List.mem_map_of_mem ht, accepts_literal_str.mpr rfl⟩
    · intro hlength
      obtain rfl : values = [] := by simpa using hlength
      refine (hliteral value).congr ⟨rfl, rfl, fun resolve v => ?_⟩
      simp [accepts_enum, accepts_literal_str]

/-! ## Schemas that can be read back -/

/-- Whether an expression is a choice without parentheses. -/
def isChoice : Schema → Bool
  | .anyOf _ | .optional _ => true
  | .enum values _ => 1 < values.length
  | _ => false

/-- Whether a schema is a scalar, a literal, an enum, an optional one, a choice with a member, or a
list, but not one of an enum with several values. -/
def isReadable : Schema → Bool
  | .string | .int | .float | .bool | .null | .enum .. | .optional _ => true
  | .literal (.str t) => Surrogate.areApart t.toList
  | .literal (.int _) | .literal (.bool _) => true
  | .array (.enum values _) => values.length ≤ 1
  | .array _ => true
  | .anyOf members => !members.isEmpty
  | _ => false

/-- A schema that is readable everywhere. -/
def IsReadable (s : Schema) : Prop :=
  s.everywhere isReadable = true

/-- **The expression of a schema tells it**, and by a single member if it is no choice. -/
theorem tells_expression (named : Int → String → String) (level : Int) (s : Schema) :
    IsReadable s → s.HasWritableLiterals → Tells (expressionWith named level s) s ∧
      (isChoice s = false → TellsAlone (expressionWith named level s) s) := by
  have halone {t : String} {s : Schema} (h : TellsAlone t s) :
      Tells t s ∧ (isChoice s = false → TellsAlone t s) := ⟨h.tells, fun _ => h⟩
  induction s using Schema.ind with
  | step s ih =>
  intro hs hwritable
  obtain ⟨hself, hreadable⟩ := Schema.everywhere_iff.mp hs
  have hpart (x : Schema) (hx : x ∈ s.parts) := ih x hx (hreadable x hx) (hwritable.of_mem_parts hx)
  cases s with
  | string => exact halone (tellsAlone_noun "string" (by simp [nouns]))
  | int => exact halone (tellsAlone_noun "int" (by simp [nouns]))
  | float => exact halone (tellsAlone_noun "float" (by simp [nouns]))
  | bool => exact halone (tellsAlone_noun "bool" (by simp [nouns]))
  | null => exact halone (tellsAlone_noun "null" (by simp [nouns]))
  | literal value =>
    cases value with
    | bool b =>
      cases b with
      | false => exact halone (tellsAlone_noun "false" (by simp [nouns]))
      | true => exact halone (tellsAlone_noun "true" (by simp [nouns]))
    | int n => exact halone (tellsAlone_integer (Schema.everywhere_self hwritable))
    | str t => exact halone (tellsAlone_string { ascii := true } fun _ => hself)
    | null | float _ => cases hself
  | enum values aliases =>
    obtain ⟨hall, hone⟩ := tells_alternatives values aliases
    refine ⟨hall, fun hchoice => hone ?_⟩
    simpa [isChoice] using hchoice
  | array s =>
    obtain ⟨hitem, hsingle⟩ := hpart s (List.mem_singleton_self s)
    apply halone
    rw [expressionWith]
    apply TellsAlone.list
    unfold asItem
    split
    · exact hitem.group
    · exact hitem.group
    · next hmembers hoptional =>
      apply hsingle
      cases s with
      | enum values aliases => simpa [isReadable, isChoice] using hself
      | anyOf members => exact absurd rfl (hmembers members)
      | optional s => exact absurd rfl (hoptional s)
      | _ => rfl
  | anyOf members =>
    have hne : members ≠ [] := by simpa [isReadable] using hself
    have hmember (m : Schema) (hm : m ∈ members) : Tells (expressionWith named level m) m :=
      (hpart m hm).1
    have h := tells_joinWith (members.map fun m => (expressionWith named level m, m))
      (by simpa using hne) (by simpa using hmember)
    refine ⟨?_, by simp [isChoice]⟩
    rw [expressionWith, membersWith_eq_map]
    simpa [Function.comp_def] using h
  | optional s =>
    obtain ⟨hinner, -⟩ := hpart s (List.mem_singleton_self s)
    have hnull : Tells "null" (.anyOf [.null]) :=
      (tellsAlone_noun "null" (by simp [nouns])).tells.congr
        (Agrees.singleton (a := .null) rfl).symm
    refine ⟨?_, by simp [isChoice]⟩
    rw [expressionWith, show " | null" = " | " ++ "null" from rfl, ← String.append_assoc]
    obtain ⟨ms, x, hreads, hx⟩ := hinner.bar hnull
    exact ⟨ms, x, hreads,
      hx.trans (.optional (isSelfContained_anyOf.mp hx.right s List.mem_cons_self))⟩
  | map _ _ | object _ _ _ _ | ref _ | external _ => cases hself

/-- **What is read back from the expression of a schema accepts what the schema accepts.** -/
theorem accepts_readBack {s : Schema} (hs : IsReadable s) (hwritable : s.HasWritableLiterals)
    (named : Int → String → String) (level : Int) (resolve : Resolver) (v : Value) :
    Accepts resolve v (readBack (expressionWith named level s).toList) ↔ Accepts resolve v s :=
  (tells_expression named level s hs hwritable).1.accepts_readBack

/-! ## Which expressions can be written -/

/-- A readable schema shows nothing but its literals, so all that it shows can be shown exactly if
its literals can be written. -/
theorem hasWritableLiterals_iff_shown (named : String → List Shown) (s : Schema) :
    IsReadable s →
      (s.HasWritableLiterals ↔ ∀ part ∈ shownWith named s, part.error? = none) := by
  induction s using Schema.ind with
  | step s ih =>
  intro hs
  obtain ⟨hself, hreadable⟩ := Schema.everywhere_iff.mp hs
  have hpart (x : Schema) (hx : x ∈ s.parts) := ih x hx (hreadable x hx)
  rw [Schema.hasWritableLiterals_iff]
  cases s with
  | array s | optional s =>
    have hs := hpart s (List.mem_singleton_self s)
    rw [Schema.parts, List.forall_mem_singleton, hs]
    exact and_iff_right rfl
  | anyOf members =>
    rw [shownWith, shownByMembers_eq_flatMap, List.forall_mem_flatMap]
    exact (and_iff_right rfl).trans (forall₂_congr hpart)
  | literal value => simp [Schema.hasWritableLiteral, Schema.parts, shownWith, Shown.error?]
  | map _ _ | object _ _ _ _ | ref _ | external _ => cases hself
  | string | int | float | bool | null | enum _ _ =>
    simp [Schema.hasWritableLiteral, Schema.parts, shownWith]

/-- The expression of a readable schema can be written exactly if its literals can. -/
theorem express_eq_ok_iff {s : Schema} (hs : IsReadable s) {known : Table Definition} {level : Int}
    {text : String} :
    express known s [] level = .ok text ↔
      s.HasWritableLiterals ∧ expressionWith (named known.length known) level s = text := by
  have hobject (properties : List (String × Schema)) (required : List String)
      (additional : Option Schema) (descriptions : List (String × Value))
      (heq : s = .object properties required additional descriptions) : False := by
    have hself := Schema.everywhere_self hs
    rw [heq] at hself
    cases hself
  rw [express, showing_eq_ok_iff, shown, expression, shownBySchema, expressionAt,
    ← hasWritableLiterals_iff_shown _ s hs]
  · exact hobject
  · exact hobject

/-- **The expression of a schema determines the values that it accepts.** -/
theorem check_iff_of_express_eq {s₁ s₂ : Schema} (h₁ : IsReadable s₁) (h₂ : IsReadable s₂)
    {text : String} (htext₁ : express [] s₁ [] 0 = .ok text)
    (htext₂ : express [] s₂ [] 0 = .ok text) (resolve : Resolver) (v : Value) :
    check resolve v s₁ = .ok () ↔ check resolve v s₂ = .ok () := by
  obtain ⟨hwritable₁, hexpression₁⟩ := (express_eq_ok_iff h₁).mp htext₁
  obtain ⟨hwritable₂, hexpression₂⟩ := (express_eq_ok_iff h₂).mp htext₂
  have hread₁ := accepts_readBack h₁ hwritable₁ (named 0 []) 0 resolve v
  have hread₂ := accepts_readBack h₂ hwritable₂ (named 0 []) 0 resolve v
  rw [List.length_nil] at hexpression₁ hexpression₂
  rw [hexpression₁] at hread₁
  rw [hexpression₂] at hread₂
  exact hread₁.symm.trans hread₂

/-- Two ways to ask for a list of words and nulls have one expression and accept the same values. -/
theorem check_iff_of_express_eq_words :
    let s₁ : Schema := .array (.optional (.anyOf [.literal (.str "a"), .enum ["b"] []]))
    let s₂ : Schema := .array (.anyOf [.enum ["a", "b"] [("a", "A")], .null])
    let text := "(\"a\" | \"b\" | null)[]"
    IsReadable s₁ ∧ IsReadable s₂ ∧ express [] s₁ [] 0 = .ok text ∧ express [] s₂ [] 0 = .ok text ∧
      ∀ resolve v, check resolve v s₁ = .ok () ↔ check resolve v s₂ = .ok () := by
  intro s₁ s₂ text
  have h₁ : IsReadable s₁ := by
    show s₁.everywhere isReadable = true
    decide +kernel
  have h₂ : IsReadable s₂ := by
    show s₂.everywhere isReadable = true
    decide +kernel
  have htext₁ : express [] s₁ [] 0 = .ok text := by cbv
  have htext₂ : express [] s₂ [] 0 = .ok text := by cbv
  exact ⟨h₁, h₂, htext₁, htext₂, check_iff_of_express_eq h₁ h₂ htext₁ htext₂⟩

/-- **Two schemas may have the same expression and accept different values.** The expression of a
list of two words is that of a choice between one word and a list of the other, and only the choice
accepts a word. The expression of a literal that consists of two halves is that of the character
that they spell. -/
theorem express_ambiguous :
    let list : Schema := .array (.enum ["a", "b"] [])
    let choice : Schema := .anyOf [.literal (.str "a"), .array (.literal (.str "b"))]
    let halves : Schema :=
      .literal (.str (String.ofList [Surrogate.standIn 0xD83D, Surrogate.standIn 0xDE00]))
    let whole : Schema := .literal (.str "😀")
    (express [] list [] 0 = express [] choice [] 0 ∧
      (check (fun _ => none) (.str "a") list).isOk = false ∧
      check (fun _ => none) (.str "a") choice = .ok ()) ∧
    (express [] halves [] 0 = express [] whole [] 0 ∧
      (check (fun _ => none) (.str "😀") halves).isOk = false ∧
      check (fun _ => none) (.str "😀") whole = .ok ()) := by
  refine ⟨⟨?_, ?_, ?_⟩, ?_, ?_, ?_⟩ <;> cbv

end ShapedReply.Prompt
