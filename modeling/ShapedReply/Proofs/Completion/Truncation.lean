import ShapedReply.Proofs.Spelling.Basic
import ShapedReply.Proofs.Table

/-!
# What is left of a document that breaks off

A strict text that is still coming in ends anywhere: inside a string or a number, behind a colon,
between two entries. `Truncated T p v` says that the value `v` is a fair answer for the tree `T` of
which only the text `p` has come in: whatever `p` has to its end is unchanged, every entry that `p`
has with its comma is kept in its place, and behind these there is at most one more entry, the next
one, which may be cut in the same way.

The relation speaks of plain lists of entries, while a map is read with repeated keys put together.
Both are the same where no key is repeated (`value_eq_holding`), which `Every HasDistinctKeys` asks
of a tree and all trees inside it.
-/

namespace ShapedReply.Spelling

open Text

variable {k : Container}

/-! ## Entries one by one -/

/-- An entry of a container, up to the comma or the closing bracket behind it. -/
structure Entry (k : Container) where
  /-- What stands before the value. -/
  head : Head k
  /-- The value. -/
  item : Tree
  /-- What stands behind the value. -/
  after : Gap

/-- The strict text of an entry. -/
def Entry.text (e : Entry k) : Text :=
  e.head.text .strict ++ (e.item.text .strict ++ e.after.strict)

/-- An entry as its key and its value. -/
def Entry.pair (e : Entry k) : String × Value :=
  (e.head.name, e.item.value)

/-- The first entry of a container. -/
def Entries.first : Entries k → Entry k
  | .last head item after _ => ⟨head, item, after⟩
  | .more head item after _ => ⟨head, item, after⟩

/-- Entries with others before them. -/
def Entries.prepend : List (Entry k) → Entries k → Entries k
  | [], es => es
  | e :: before, es => .more e.head e.item e.after (prepend before es)

/-- Entries that each have their comma. -/
def leadText (before : List (Entry k)) : Text :=
  before.flatMap fun e => e.text ++ [',']

/-- The text of entries ends with the last one and its comma. -/
theorem leadText_concat (before : List (Entry k)) (e : Entry k) :
    leadText (before ++ [e]) = leadText before ++ (e.text ++ [',']) := by
  simp [leadText]

/-- Entries before others stand before them in the text. -/
theorem Entries.text_prepend (before : List (Entry k)) (es : Entries k) :
    (prepend before es).text .strict = leadText before ++ es.text .strict := by
  induction before with
  | nil => rfl
  | cons e before ih =>
    rw [prepend, Entries.text, ih]
    simp [leadText, Entry.text, Pen.strict]

/-- Entries before others come before them in what the container holds. -/
theorem Entries.pairs_prepend (before : List (Entry k)) (es : Entries k) :
    (prepend before es).pairs = before.map Entry.pair ++ es.pairs := by
  induction before with
  | nil => rfl
  | cons e before ih =>
    rw [prepend, Entries.pairs, ih]
    rfl

/-- The last of the entries before others is the first of those others. -/
theorem Entries.prepend_concat (before : List (Entry k)) (e : Entry k) (es : Entries k) :
    prepend (before ++ [e]) es = prepend before (.more e.head e.item e.after es) := by
  induction before with
  | nil => rfl
  | cons d before ih => rw [List.cons_append, prepend, ih, prepend]

/-- The entries of a container begin with the pair of the first. -/
theorem Entries.exists_pairs_eq_cons (es : Entries k) : ∃ ps, es.pairs = es.first.pair :: ps := by
  cases es with
  | last head item after trailing => exact ⟨[], by rw [pairs]; rfl⟩
  | more head item after rest => exact ⟨rest.pairs, by rw [pairs]; rfl⟩

/-! ## What holds all over a tree -/

mutual

/-- Whether a property holds of a tree and of all trees inside it. -/
def Tree.Every (P : Tree → Prop) : Tree → Prop
  | .word w => P (.word w)
  | .string s => P (.string s)
  | .empty k inside => P (.empty k inside)
  | .filled k es => P (.filled k es) ∧ es.Every P

/-- Whether a property holds of all trees inside the entries of a container. -/
def Entries.Every (P : Tree → Prop) {k : Container} : Entries k → Prop
  | .last _ item _ _ => item.Every P
  | .more _ item _ rest => item.Every P ∧ rest.Every P

end

/-- What holds at every place holds at the top. -/
theorem Tree.Every.self {P : Tree → Prop} {T : Tree} (h : T.Every P) : P T := by
  cases T with
  | word w => rwa [Tree.Every] at h
  | string s => rwa [Tree.Every] at h
  | empty k inside => rwa [Tree.Every] at h
  | filled k es =>
    rw [Tree.Every] at h
    exact h.1

/-- What holds all over a container holds all over the item behind some of its entries. -/
theorem Entries.Every.first {P : Tree → Prop} {es : Entries k} (before : List (Entry k))
    (h : (prepend before es).Every P) : es.first.item.Every P := by
  induction before with
  | nil =>
    rw [prepend] at h
    cases es with
    | last head item after trailing => rwa [Entries.Every] at h
    | more head item after rest =>
      rw [Entries.Every] at h
      exact h.1
  | cons e before ih =>
    rw [prepend, Entries.Every] at h
    exact ih h.2

/-- Whether a map repeats no key. -/
def Tree.HasDistinctKeys : Tree → Prop
  | .filled .map es => (Table.names es.pairs).Nodup
  | _ => True

/-- Whether an escape names half of a surrogate pair. -/
def Glyph.isSurrogate : Glyph → Bool
  | .unit _ _ _ _ u _ => Surrogate.isHalf u
  | _ => false

/-- Whether a string has no halves of surrogate pairs. -/
def Tree.HasNoSurrogates : Tree → Prop
  | .string s => ∀ g ∈ s.glyphs, g.1.isSurrogate = false
  | _ => True

/-! ## Truncations -/

/-- The container that holds the given entries, each in its place. -/
def Container.holding : Container → List (String × Value) → Value
  | .array, entries => .array (entries.map (·.2))
  | .map, entries => .map entries

/-- Without repeated keys a container is read as it stands. -/
theorem Container.value_eq_holding {ps : List (String × Value)}
    (h : k = .map → (Table.names ps).Nodup) : k.value ps = k.holding ps := by
  cases k with
  | array => rfl
  | map => rw [value, holding, Table.ofList_of_nodup (h rfl)]

mutual

/-- `Truncated T p v`: of the tree `T` only the text `p` has come in, and `v` is what is left of its
value. -/
inductive Truncated : Tree → Text → Value → Prop where
  /-- What has come in to its end is unchanged. -/
  | whole (T : Tree) : Truncated T (T.text .strict) T.value
  /-- A string may be a beginning of itself. -/
  | string {s : Quoted} {p w : Text} : p <+: s.strictBody → w <+: s.meaning.toList →
      Truncated (.string s) ('"' :: p) (.str (String.ofList w))
  /-- A number may be what a beginning of its literal denotes. -/
  | number {t p : Text} {v w : Value} {reads : Reader.number t = .ok (v, [])} : p <+: t →
      Value.read p = .ok w → Truncated (.word (.number t v reads)) p w
  /-- An empty container that is still open is empty. -/
  | empty {k : Container} {inside : Gap} {p : Text} : p <+: inside.strict →
      Truncated (.empty k inside) (k.opener :: p) (k.holding [])
  /-- A container that is still open has a truncation of its entries. -/
  | filled {k : Container} {es : Entries k} {p : Text} {ps : List (String × Value)} :
      TruncatedEntries es p ps → Truncated (.filled k es) (k.opener :: p) (k.holding ps)

/-- `TruncatedEntries es p ps`: of the entries `es` of a container that is still open only the text
`p` has come in, and `ps` is what is left of them. -/
inductive TruncatedEntries : {k : Container} → Entries k → Text → List (String × Value) → Prop where
  /-- An entry with its comma is kept, and what is left of the others follows it. -/
  | kept {k : Container} {head : Head k} {item : Tree} {after : Gap} {rest : Entries k} {p : Text}
      {ps : List (String × Value)} : TruncatedEntries rest p ps →
      TruncatedEntries (.more head item after rest) ((Entry.mk head item after).text ++ ',' :: p)
        ((head.name, item.value) :: ps)
  /-- The next entry may be missing. -/
  | missing {k : Container} {es : Entries k} {p : Text} : p <+: es.first.text →
    TruncatedEntries es p []
  /-- The next entry may have a truncation of its value. -/
  | cut {k : Container} {es : Entries k} {p : Text} {v : Value} : Truncated es.first.item p v →
      TruncatedEntries es (es.first.head.text .strict ++ p) [(es.first.head.name, v)]
  /-- The next entry may be there to its end, without its comma. -/
  | ended {k : Container} {es : Entries k} {p : Text} : p <+: es.first.after.strict →
      TruncatedEntries es (es.first.head.text .strict ++ (es.first.item.text .strict ++ p))
        [es.first.pair]
  /-- Behind a colon a value that has not started may be a null. -/
  | unstarted {es : Entries .map} {before beforeColon afterColon : Gap} {key : Key} {p : Text} :
      es.first.head = .member before key beforeColon afterColon → p <+: afterColon.strict →
      TruncatedEntries es
        (before.strict ++ (Pen.strict.key key ++ (beforeColon.strict ++ ':' :: p)))
        [(key.quoted.meaning, .null)]

end

/-- Entries with their commas are kept before what is left of the others. -/
theorem TruncatedEntries.prepend (before : List (Entry k)) {es : Entries k} {p : Text}
    {ps : List (String × Value)} (h : TruncatedEntries es p ps) :
    TruncatedEntries (.prepend before es) (leadText before ++ p) (before.map Entry.pair ++ ps) := by
  induction before with
  | nil => exact h
  | cons e before ih =>
    have htext : leadText (e :: before) ++ p = e.text ++ ',' :: (leadText before ++ p) := by
      simp [leadText]
    rw [htext]
    exact .kept ih

end ShapedReply.Spelling
