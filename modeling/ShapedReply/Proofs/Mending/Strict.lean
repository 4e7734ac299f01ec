import ShapedReply.Proofs.Mending.Relaxed

/-!
# Mending leaves strict text as it is

The pen of strict text is carried to itself by every stage, so no stage changes a strict tree,
whatever stands behind it. Mending a strict text therefore only takes the blanks around it.

* `carries_strict_strip`, `carries_strict_commas`, `carries_strict_quotes`,
  `carries_strict_controls`, `carriesKeys_strict`: the five stages on the parts of strict trees.
* `mend?_of_isStrict`: **a strict text is mended to itself without the blanks around it.**
* `mend?_idempotent`: **no stage changes a strict text, so mending what was mended changes
  nothing.** A mended text is strict and has no blanks around it.
-/

namespace ShapedReply

open Text Reader Spelling Mend

/-! ## The parts of strict text -/

/-- The inside of a strict string is sealed. -/
theorem sealed_strictBody (s : Quoted) : Sealed '"' s.strictBody := by
  apply Sealed.flatMap
  intro g _
  have := sealed_text (q := '"') rfl false g.1 false
  rwa [Glyph.text_strict] at this

/-- The inside of a strict string has no control characters to escape. -/
theorem escapeControl_strictBody (s : Quoted) :
    s.strictBody.flatMap escapeControl = s.strictBody := by
  apply flatMap_escapeControl_of_le
  intro c hc
  obtain ⟨g, -, hc⟩ := List.mem_flatMap.mp hc
  exact le_of_mem_strict g.1 c hc

/-- Strict entries start with no blank and no closing bracket. -/
theorem opensEntries_strict : OpensEntries .strict where
  gap g r h := by
    show closesNext (g.strict ++ r) = false
    rw [closesNext_append (forall_isBlank g.blank), h]
  key k := ⟨_, _, rfl, by decide⟩
  string s := ⟨_, _, rfl, by decide⟩

/-- What a stage needs so that it leaves strict trees as they are. -/
theorem carries_strict {F : Text → Text} (hcode : PassesCode F)
    (hcomma : ∀ r, closesNext r = false → F (',' :: r) = ',' :: F r)
    (hstring : ∀ (s : Quoted) r,
      F ('"' :: (s.strictBody ++ '"' :: r)) = '"' :: (s.strictBody ++ '"' :: F r)) :
    Carries F .strict .strict := by
  have hliteral : ∀ (s : Quoted) r,
      F ('"' :: (s.strictBody ++ ['"']) ++ r) = '"' :: (s.strictBody ++ ['"']) ++ F r := by
    intro s r
    have := hstring s r
    simpa using this
  constructor
  case code => exact hcode
  case comma => exact hcomma
  case start => exact fun es r => opensEntries_strict.entries es r
  case gap =>
    exact fun g r => hcode.append (fun c hc => code_of_isBlank (forall_isBlank g.blank c hc)) r
  case trailing => exact fun _ _ _ => rfl
  case key => exact fun k r => hliteral k.quoted r
  case string => exact hliteral

/-- The removal of comments keeps strict text. -/
theorem carries_strict_strip : Carries (stripFrom .code) .strict .strict :=
  carries_strict passesCode_strip (fun r _ => stripFrom_cons rfl (by decide) r)
    fun s r => stripFrom_literal rfl (sealed_strictBody s) r

/-- The removal of commas keeps strict text. -/
theorem carries_strict_commas : Carries dropTrailingCommas .strict .strict := by
  refine carries_strict passesCode_dropTrailingCommas ?_
    fun s r => dropTrailingCommas_literal rfl (sealed_strictBody s) r
  intro r hr
  rw [dropTrailingCommas_cons rfl, if_neg (by simp [hr])]

/-- The change of quotes keeps strict text. -/
theorem carries_strict_quotes : Carries requote .strict .strict := by
  refine carries_strict (fun c r hc _ _ => requote_cons hc r) (fun r _ => requote_cons rfl r) ?_
  intro s r
  rw [requote_literal rfl (sealed_strictBody s), if_neg (by decide)]

/-- The escaping of control characters keeps strict text. -/
theorem carries_strict_controls : Carries escapeControls .strict .strict := by
  refine carries_strict (fun c r hc _ _ => escapeControls_cons hc r)
    (fun r _ => escapeControls_cons rfl r) ?_
  intro s r
  rw [escapeControls_literal rfl (sealed_strictBody s), escapeControl_strictBody]

/-- The quoting of keys keeps strict text. -/
theorem carriesKeys_strict : CarriesKeys .strict .strict := by
  have hstring : ∀ (s : Quoted) {st : Keys}, st ≠ .inside → ∀ r,
      quoteKeysIn st ('"' :: (s.strictBody ++ ['"']) ++ r) =
        '"' :: (s.strictBody ++ ['"']) ++ quoteKeysIn .elsewhere r := by
    intro s st hst r
    have := quoteKeysIn_quoted hst rfl (sealed_strictBody s) r
    simpa using this
  constructor
  case gap => exact fun _ => rfl
  case blank => exact fun g => g.blank
  case trailing => exact fun _ => rfl
  case trailingBlank => exact fun _ _ h => by cases h
  case key =>
    intro key g hg r
    have hcolon : quoteKeysIn .elsewhere (':' :: r) = ':' :: quoteKeysIn .elsewhere r :=
      quoteKeysIn_elsewhere_cons rfl r
    rw [← hcolon, ← quoteKeysIn_append (k := .elsewhere) (by simp) (forall_isBlank hg)]
    exact hstring key.quoted (by simp) _
  case string => exact fun s st hst r => hstring s hst r

/-! ## Mending -/

/-- Each stage leaves a strict tree between blanks as it is. -/
theorem apply_strict (stage : Stage) (T : Tree) {g g' : Text} (hg : ∀ c ∈ g, isValueBlank c = true)
    (hg' : ∀ c ∈ g', isValueBlank c = true) :
    stage.apply (g ++ (T.text .strict ++ g')) = g ++ (T.text .strict ++ g') := by
  cases stage with
  | comments => exact carries_strict_strip.between rfl T hg hg'
  | trailingCommas => exact carries_strict_commas.between rfl T hg hg'
  | bareKeys => exact carriesKeys_strict.between T hg hg'
  | singleQuotes => exact carries_strict_quotes.between rfl T hg hg'
  | controlCharacters => exact carries_strict_controls.between rfl T hg hg'

/-- No stage changes a strict tree between blanks. -/
theorem stages_strict (T : Tree) {g g' : Text} (hg : ∀ c ∈ g, isValueBlank c = true)
    (hg' : ∀ c ∈ g', isValueBlank c = true) :
    applyAll stages (g ++ (T.text .strict ++ g')) = g ++ (T.text .strict ++ g') := by
  simp only [applyAll, stages, List.foldl_cons, List.foldl_nil, apply_strict _ T hg hg']

/-- A strict tree ends with what a value can end with. -/
theorem exists_strict_eq_concat (T : Tree) :
    ∃ r c, T.text .strict = r ++ [c] ∧ c ∈ valueEnds :=
  exists_text_eq_concat (fun s => ⟨'"' :: s.strictBody, '"', rfl, by decide⟩) T

/-- A strict tree between blanks is what trimming leaves. -/
theorem trim_tree (T : Tree) {g g' : Text} (hg : ∀ c ∈ g, isBlank c = true)
    (hg' : ∀ c ∈ g', isBlank c = true) : trim (g ++ T.text .strict ++ g') = T.text .strict := by
  obtain ⟨c, s, hstart, hc⟩ := legible_strict.exists_cons T
  obtain ⟨s', e, hend, he⟩ := exists_strict_eq_concat T
  exact trim_append hg hg' hstart (valueStarts_blank c hc) hend (valueEnds_blank e he)

/-- What trimming leaves of a strict text is a strict tree. -/
theorem trim_strict (d : Document) : trim d.strict = d.root.text .strict :=
  trim_tree d.root (forall_isBlank d.before.blank) (forall_isBlank d.after.blank)

/-- A strict text without blanks around it is a tree. -/
theorem exists_tree_of_trim {t : Text} (hstrict : isStrict t = true) (htrim : trim t = t) :
    ∃ T : Tree, t = T.text .strict := by
  obtain ⟨d, rfl, -⟩ := exists_document_of_isStrict hstrict
  rw [trim_strict] at htrim
  exact ⟨d.root, htrim.symm⟩

/-- **A strict text is mended to itself, without the blanks around it.** -/
theorem mend?_of_isStrict {t : Text} (h : isStrict t = true) : mend? t = some (trim t) := by
  obtain ⟨d, rfl, -⟩ := exists_document_of_isStrict h
  have hstages : applyAll stages (d.root.text .strict) = d.root.text .strict := by
    have := stages_strict d.root blank_nil blank_nil
    rwa [List.nil_append, List.append_nil] at this
  have htrim : trim (d.root.text .strict) = d.root.text .strict := by
    have := trim_tree d.root (forall_isBlank blank_nil) (forall_isBlank blank_nil)
    rwa [List.nil_append, List.append_nil] at this
  have hstrict : isStrict (d.root.text .strict) = true := by
    rw [isStrict, read_text_alone legible_strict]
  rw [mend?, trim_strict, hstages, htrim]
  exact if_pos hstrict

/-- **No stage changes a strict text.** -/
theorem apply_of_isStrict {t : Text} (h : isStrict t = true) (stage : Stage) :
    stage.apply t = t := by
  obtain ⟨d, rfl, -⟩ := exists_document_of_isStrict h
  have := apply_strict stage d.root d.before.blank d.after.blank
  rwa [← List.append_assoc] at this

/-- **Mending leaves strict text alone, and so what was mended.** Each of the stages returns a
strict text as it is, mending a strict text takes the blanks around it and nothing else, and a
mended text is mended to itself. -/
theorem mend?_idempotent :
    (∀ t, isStrict t = true → (∀ stage : Stage, stage.apply t = t) ∧ mend? t = some (trim t)) ∧
      ∀ t r, mend? t = some r → mend? r = some r := by
  constructor
  · intro t h
    exact ⟨apply_of_isStrict h, mend?_of_isStrict h⟩
  · intro t r h
    obtain ⟨hmended, hstrict⟩ := mend?_eq_some_iff.mp h
    have htrim : trim r = r := by
      rw [← hmended, trim_trim]
    rw [mend?_of_isStrict hstrict, htrim]

/-- A strict text with quotes, commas, brackets and comment marks in its strings. -/
def markedNote : Text := " [\"//,]'\", \x7b\"a:\": \"\\n/*\"\x7d]\n".toList

/-- A text that every stage changes. -/
def unmendedNote : Text := "\x7ba: 'b\tc',\x7d//d".toList

/-- What mending makes of it. -/
def mendedNote : Text := "\x7b\"a\": \"b\\tc\"\x7d".toList

/-- A strict text with marks of every stage in its strings, and a text that all stages work on. -/
theorem mend?_idempotent_notes :
    (isStrict markedNote = true ∧ (∀ stage : Stage, stage.apply markedNote = markedNote) ∧
      mend? markedNote = some (trim markedNote)) ∧
    mend? unmendedNote = some mendedNote ∧ mend? mendedNote = some mendedNote := by
  have hstrict : isStrict markedNote = true := by decide +kernel
  have hmend : mend? unmendedNote = some mendedNote := by decide +kernel
  exact ⟨⟨hstrict, mend?_idempotent.1 _ hstrict⟩, hmend, mend?_idempotent.2 _ _ hmend⟩

end ShapedReply
