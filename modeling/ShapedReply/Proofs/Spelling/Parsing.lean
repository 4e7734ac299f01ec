import ShapedReply.Proofs.Reading.Tree

/-!
# Every strict text is the text of a tree

The converse of `read_text`: what the reader accepts was written by the pen of strict text. Together
they say that trees are exactly the strict texts, so a statement about all trees is one about all
strict texts.

* `writes_of_value`: by induction on the budget, what is read is a tree in front of the rest, and
  what is read as entries is entries.
* `exists_document_of_isStrict`: **every strict text is the strict text of a document**, and of one
  that relaxed text writes in the same way.
* `relaxes_self_iff`: so the strict texts are those that are among their own relaxations.
-/

namespace ShapedReply

open Text Reader Spelling Outcome

/-! ## Parts that relaxed text writes as strict text does -/

/-- Blanks as pieces. -/
def Spelling.Piece.ofBlanks : (g : Text) → (∀ c ∈ g, isValueBlank c = true) → List Piece
  | [], _ => []
  | c :: g, h =>
    .blank c (h c List.mem_cons_self) :: ofBlanks g fun d hd => h d (List.mem_cons_of_mem c hd)

/-- A gap that has the same blanks in strict and in relaxed text. -/
def Spelling.Gap.ofBlanks (g : Text) (h : ∀ c ∈ g, isValueBlank c = true) : Gap :=
  ⟨g, h, Piece.ofBlanks g h⟩

/-- A string that is spelled in relaxed text as in strict text. -/
def Spelling.Quoted.ofGlyphs (gs : List Glyph) : Quoted :=
  ⟨gs.map fun g => (g, false), false⟩

/-- Blanks are spelled as they are. -/
theorem pieces_ofBlanks (l : Looseness) :
    (g : Text) → (h : ∀ c ∈ g, isValueBlank c = true) → l.pieces (Piece.ofBlanks g h) = g
  | [], _ => rfl
  | c :: g, h => by
    have ih := pieces_ofBlanks l g fun d hd => h d (List.mem_cons_of_mem c hd)
    rw [Looseness.pieces] at ih ⊢
    rw [Piece.ofBlanks, List.flatMap_cons, ih]
    split <;> rfl

/-- The strict text of a string is that of its glyphs. -/
theorem strictBody_ofGlyphs (gs : List Glyph) :
    (Quoted.ofGlyphs gs).strictBody = gs.flatMap Glyph.strict := by
  simp [Quoted.ofGlyphs, Quoted.strictBody, List.flatMap_map]

/-- A string of strict glyphs is spelled in double quotes, however loose the text is. -/
theorem string_ofGlyphs (l : Looseness) (gs : List Glyph) :
    l.string (.ofGlyphs gs) = '"' :: (gs.flatMap Glyph.strict ++ ['"']) := by
  simp [Looseness.string, Looseness.quote, Quoted.ofGlyphs, Quoted.looseBody, List.flatMap_map,
    Glyph.text_strict]

/-- A string means what its glyphs spell. -/
theorem meaning_ofGlyphs (gs : List Glyph) :
    (Quoted.ofGlyphs gs).meaning = String.ofList (joinUnits (gs.map Glyph.codeUnit)) := by
  simp [Quoted.meaning, Quoted.codeUnits, Quoted.ofGlyphs, Function.comp_def]

/-- What is read as a string is a string in front of the rest. -/
theorem exists_quoted_of_string {t r : Text} {s : String} (h : Reader.string t = .ok (s, r)) :
    ∃ gs, '"' :: t = '"' :: ((Quoted.ofGlyphs gs).strictBody ++ ['"']) ++ r ∧
      (Quoted.ofGlyphs gs).meaning = s := by
  obtain ⟨⟨us, r'⟩, hunits, heq⟩ := map_eq_ok_iff.mp h
  cases heq
  obtain ⟨gs, rfl, rfl⟩ := units_eq_ok hunits
  refine ⟨gs, ?_, meaning_ofGlyphs gs⟩
  rw [strictBody_ofGlyphs]
  simp

/-! ## From what is read to a tree -/

/-- `Writes v t r`: the text `t` is a tree with the value `v` in front of `r`, and the tree is
relaxed text as it stands. -/
def Writes (v : Value) (t r : Text) : Prop :=
  ∃ T : Tree, t = T.text .strict ++ r ∧ T.value = v ∧ T.text (.loose .full) = T.text .strict

/-- The same of entries. -/
def WritesEntries (k : Container) (ps : List (String × Value)) (t r : Text) : Prop :=
  ∃ es : Entries k, t = es.text .strict ++ r ∧ es.pairs = ps ∧
    es.text (.loose .full) = es.text .strict

/-- A word in front of the rest. -/
theorem writes_word (w : Word) (r : Text) : Writes w.value (w.text ++ r) r :=
  ⟨.word w, by rw [Tree.text], by rw [Tree.value], by rw [Tree.text, Tree.text]⟩

/-- A string in front of the rest. -/
theorem writes_of_string {t r : Text} {s : String} (h : Reader.string t = .ok (s, r)) :
    Writes (.str s) ('"' :: t) r := by
  obtain ⟨gs, ht, rfl⟩ := exists_quoted_of_string h
  refine ⟨.string (.ofGlyphs gs), ?_, by rw [Tree.value], ?_⟩
  · rw [Tree.text, ht]
    rfl
  · rw [Tree.text, Tree.text]
    exact (string_ofGlyphs _ gs).trans (by simp [Pen.strict, strictBody_ofGlyphs])

/-- What is read as the name of an entry is a head in front of the rest. -/
theorem exists_head_of_readName {k : Container} {t r : Text} {name : String}
    (h : readName k (skipValueBlanks t) = .ok (name, r)) :
    ∃ head : Head k, t = head.text .strict ++ r ∧ head.name = name ∧
      head.text (.loose .full) = head.text .strict := by
  obtain ⟨g, hg, ht⟩ := exists_blanks_append t
  cases k with
  | array =>
    cases h
    exact ⟨.item (.ofBlanks g hg), ht, rfl, pieces_ofBlanks _ g hg⟩
  | map =>
    rcases hskip : skipValueBlanks t with _ | ⟨c, t'⟩
    · rw [hskip] at h
      cases h
    rw [hskip] at h ht
    unfold readName at h
    split at h
    · next heq => cases heq
    · next heq =>
      cases heq
      obtain ⟨⟨key, r₁⟩, hstring, hcolon⟩ := bind_eq_ok_iff.mp h
      obtain ⟨gs, hgs, rfl⟩ := exists_quoted_of_string hstring
      obtain ⟨g₁, hg₁, hr₁⟩ := exists_blanks_append r₁
      simp only at hcolon
      unfold readColon at hcolon
      split at hcolon
      · next r₂ hr₂ =>
        cases hcolon
        obtain ⟨g₂, hg₂, hr⟩ := exists_blanks_append r₂
        generalize skipValueBlanks r₂ = r at hr ⊢
        refine ⟨.member (.ofBlanks g hg) ⟨.ofGlyphs gs, none, by simp⟩ (.ofBlanks g₁ hg₁)
          (.ofBlanks g₂ hg₂), ?_, rfl, ?_⟩
        · rw [ht, hgs, hr₁, hr₂, hr, Head.text]
          simp [Pen.strict, Gap.ofBlanks]
        · simp [Head.text, Pen.strict, Pen.loose, Gap.ofBlanks, pieces_ofBlanks, string_ofGlyphs,
            strictBody_ofGlyphs]
      · cases hcolon
    · cases h

/-- An entry in front of what is read behind it. -/
theorem writesEntries_of_readBehind {k : Container} {n : Nat} {head : Head k} {T : Tree}
    {ps : List (String × Value)} {r s : Text}
    (hhead : head.text (.loose .full) = head.text .strict)
    (hT : T.text (.loose .full) = T.text .strict)
    (ih : ∀ t r ps, readEntries k n (skipValueBlanks t) = .ok (ps, r) → WritesEntries k ps t r)
    (h : readBehind k n (head.name, T.value) (skipValueBlanks s) = .ok (ps, r)) :
    WritesEntries k ps (head.text .strict ++ (T.text .strict ++ s)) r := by
  obtain ⟨g, hg, hs⟩ := exists_blanks_append s
  rcases hskip : skipValueBlanks s with _ | ⟨c, s'⟩
  · rw [hskip] at h
    cases h
  rw [hskip] at h hs
  rw [readBehind] at h
  split at h
  · next hc =>
    cases h
    subst hc
    refine ⟨.last head T (.ofBlanks g hg) none, ?_, by rw [Entries.pairs], ?_⟩
    · rw [hs, Entries.text]
      simp [Pen.strict, Gap.ofBlanks]
    · rw [Entries.text, Entries.text, hhead, hT]
      simp [Pen.strict, Pen.loose, Gap.ofBlanks, pieces_ofBlanks]
  · split at h
    · next hc =>
      subst hc
      obtain ⟨⟨es, r'⟩, hes, heq⟩ := map_eq_ok_iff.mp h
      cases heq
      obtain ⟨rest, hrest, hpairs, hloose⟩ := ih s' r' es hes
      refine ⟨.more head T (.ofBlanks g hg) rest, ?_, by rw [Entries.pairs, hpairs], ?_⟩
      · rw [hs, hrest, Entries.text]
        simp [Pen.strict, Gap.ofBlanks]
      · rw [Entries.text, Entries.text, hhead, hT, hloose]
        simp [Pen.strict, Pen.loose, Gap.ofBlanks, pieces_ofBlanks]
    · cases h

/-- A container in front of the rest. -/
theorem writes_of_value_opener {k : Container} {n : Nat} {t r : Text} {v : Value}
    (ih : ∀ t r ps, readEntries k n (skipValueBlanks t) = .ok (ps, r) → WritesEntries k ps t r)
    (h : value (n + 1) (k.opener :: t) = .ok (v, r)) : Writes v (k.opener :: t) r := by
  by_cases hempty : ∃ s, skipValueBlanks t = k.closer :: s
  · obtain ⟨s, hs⟩ := hempty
    obtain ⟨g, hg, ht⟩ := exists_blanks_append t
    rw [value_empty k n hs] at h
    cases h
    refine ⟨.empty k (.ofBlanks g hg), ?_, by rw [Tree.value], ?_⟩
    · rw [ht, hs, Tree.text]
      simp [Pen.strict, Gap.ofBlanks]
    · simp [Tree.text, Pen.strict, Pen.loose, Gap.ofBlanks, pieces_ofBlanks]
  · rw [value_filled] at h
    · obtain ⟨⟨ps, r'⟩, hps, heq⟩ := map_eq_ok_iff.mp h
      cases heq
      obtain ⟨es, hes, hpairs, hloose⟩ := ih t r' ps hps
      refine ⟨.filled k es, ?_, ?_, ?_⟩
      · rw [Tree.text, hes]
        rfl
      · rw [Tree.value, hpairs]
      · rw [Tree.text, Tree.text, hloose]
    · rintro c hc rfl
      apply hempty
      rcases hs : skipValueBlanks t with _ | ⟨d, s⟩
      · rw [hs] at hc
        cases hc
      · rw [hs] at hc
        cases hc
        exact ⟨s, rfl⟩

/-- **What is read is a tree in front of the rest**, and what is read as entries is entries. -/
theorem writes_of_value (n : Nat) :
    (∀ t r v, value n t = .ok (v, r) → Writes v t r) ∧
      ∀ k t r ps, readEntries k n (skipValueBlanks t) = .ok (ps, r) → WritesEntries k ps t r := by
  induction n with
  | zero =>
    constructor
    · intro t r v h
      cases h
    · intro k t r ps h
      cases k <;> cases h
  | succ n ih =>
    obtain ⟨ihvalue, ihentries⟩ := ih
    constructor
    · intro t r v h
      have hcopy := h
      rw [value.eq_def] at h
      simp only at h
      split at h
      · obtain ⟨⟨s, r'⟩, hstring, heq⟩ := map_eq_ok_iff.mp h
        cases heq
        exact writes_of_string hstring
      · exact writes_of_value_opener (ihentries .map) hcopy
      · exact writes_of_value_opener (ihentries .array) hcopy
      · cases h
        exact writes_word .null _
      · cases h
        exact writes_word (.bool true) _
      · cases h
        exact writes_word (.bool false) _
      · cases h
      · cases h
      · cases h
      · obtain ⟨w, rfl, -, -, hreads⟩ := number_eq_ok h
        have hnumber := hreads [] stopsNumber_nil
        rw [List.append_nil] at hnumber
        exact writes_word (.number w v hnumber) r
    · intro k t r ps h
      rw [readEntries_succ] at h
      obtain ⟨⟨name, t₁⟩, hname, h⟩ := bind_eq_ok_iff.mp h
      obtain ⟨⟨v, t₂⟩, hvalue, h⟩ := bind_eq_ok_iff.mp h
      obtain ⟨head, rfl, rfl, hhead⟩ := exists_head_of_readName hname
      obtain ⟨T, rfl, rfl, hT⟩ := ihvalue _ _ _ hvalue
      exact writesEntries_of_readBehind hhead hT (ihentries k) h

/-! ## Documents -/

/-- **Every strict text is the strict text of a document**, and of one that relaxed text writes in
the same way. -/
theorem exists_document_of_isStrict {t : Text} (h : isStrict t = true) :
    ∃ d : Document, d.strict = t ∧ d.loose = t := by
  unfold isStrict at h
  rcases hread : Value.read t with e | v
  · simp [hread] at h
  rw [Value.read] at hread
  obtain ⟨⟨w, r⟩, hvalue, hend⟩ := bind_eq_ok_iff.mp hread
  obtain ⟨g, hg, ht⟩ := exists_blanks_append t
  obtain ⟨g', hg', hr⟩ := exists_blanks_append r
  obtain ⟨T, hT, -, hloose⟩ := (writes_of_value _).1 _ _ _ hvalue
  simp only at hend
  split at hend
  · next hskip =>
    rw [hskip, List.append_nil] at hr
    subst hr
    rw [hT] at ht
    refine ⟨⟨.ofBlanks g hg, T, .ofBlanks r hg', none, by simp⟩, ?_, ?_⟩
    · simp [Document.strict, Gap.ofBlanks, ht]
    · simp [Document.loose, remarkText, Gap.ofBlanks, pieces_ofBlanks, hloose, ht]
  · cases hend

/-- The strict text of a document is strict, and reads as the value of its tree. -/
theorem read_strict (d : Document) : Value.read d.strict = .ok d.root.value :=
  read_text legible_strict d.root d.before.blank d.after.blank

/-- The texts that have relaxations are the strict texts, and each is a relaxation of itself. -/
theorem relaxes_self_iff {t : Text} : Relaxes t t ↔ isStrict t = true := by
  constructor
  · rintro ⟨d, hd, -⟩
    rw [isStrict, ← hd, read_strict]
  · exact exists_document_of_isStrict

end ShapedReply
