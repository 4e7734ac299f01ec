import ShapedReply.Proofs.Completion.Streaming
import ShapedReply.Proofs.Mending.Order

/-!
# Recovering a document that can be mended as a whole

A document with relaxations may be mended as a whole, and it may look as if it broke off: an
apostrophe opens no literal in strict text, so a double quote in a single-quoted literal seems never
to be closed. Completion then answers in place of mending, with the same stages in another order and
its own idea of where the document ends.

* `complete_of_mend?`: **a document that can be mended as a whole is completed to the mended
  document.** The commas may be dropped last (`Respells.dropTrailingCommas`), the mended document
  leaves nothing open, so nothing is closed, and it ends as a value does, so its end is left as it
  is.
* `complete_eq_mended`: without carriage returns nothing else is asked, since only a carriage return
  can make the two orders of the stages differ.
* `recover?_of_mend?`: **recovery answers with the mended document**, unless a fenced block or a
  bracketed span comes before it, and it says when that can be.
-/

namespace ShapedReply

open Text Reader Spelling Mend Completion

/-! ## Blanks behind a text -/

/-- Blanks come through the stages. -/
theorem respells_blanks {g : Text} (hg : ∀ c ∈ g, isBlank c = true) (k : Bool) :
    Respells k g g := by
  induction g generalizing k with
  | nil => exact .nil
  | cons c g ih =>
    rw [List.forall_mem_cons] at hg
    exact .code (isCode_of_isBlank hg.1)
      (by rw [isNameStart_of_isBlank hg.1, Bool.and_false, Bool.false_and]) (ih hg.2 _)

/-- **Blanks behind a text come through the stages**, unless the text leaves a literal open. -/
theorem Respells.append_blanks {k : Bool} {u v g : Text} (h : Respells k u v)
    (hg : ∀ c ∈ g, isBlank c = true) : Respells k (u ++ g) (v ++ g) ∨
      ∀ o : Outline, o.place = .code → (o.after v).place ≠ .code := by
  induction h with
  | @nil k => exact .inl (respells_blanks hg k)
  | @code k c r v hc hkey _ ih =>
    rcases ih with ih | ih
    · have hkey' : (k && Text.isNameStart c && endsKey (r ++ g)) = false := by
        rwa [endsKey_append_blanks r hg]
      exact .inl (.code hc hkey' ih)
    · refine .inr fun o ho => ih _ ?_
      exact Outline.place_after_code (w := [c]) (by simpa using hc) ho
  | @key name b r v hname hb _ ih =>
    rcases ih with ih | ih
    · have := Respells.key hname hb ih
      exact .inl (by simpa using this)
    · refine .inr fun o ho => ?_
      have hcolon : ∀ c ∈ b ++ [':'], isCode c = true := by
        rw [List.forall_mem_append]
        exact ⟨fun c hc => isCode_of_isBlank (hb c hc), by decide⟩
      have htext : b ++ ':' :: v = b ++ [':'] ++ v := by simp
      rw [Outline.after_past_literal, htext, Outline.after_append]
      exact ih _ (Outline.place_after_code hcolon
        (Outline.place_after_literal (sealed_name hname) ho))
  | @literal k q body r v hq hbody hreturn _ ih =>
    rcases ih with ih | ih
    · have := Respells.literal (k := k) hq hbody hreturn ih
      exact .inl (by simpa using this)
    · refine .inr fun o ho => ?_
      rw [Outline.after_past_literal]
      exact ih _ (Outline.place_after_literal (sealed_literalBody hq hbody hreturn) ho)
  | unclosed hq hw hreturn =>
    exact .inr fun o ho => Outline.place_after_unclosed (unclosed_literalBody hq hw hreturn) ho

/-! ## Completion -/

/-- What trimming leaves of a text whose commas are dropped: the text is trimmed first. -/
theorem trimEnd_dropTrailingCommas (t : Text) :
    trimEnd (dropTrailingCommas t) = dropTrailingCommas (trimEnd t) := by
  obtain ⟨g, htext, hg⟩ := exists_trimEnd_append t
  have hdrop : dropTrailingCommas t = dropTrailingCommas (trimEnd t) ++ g := by
    rw [← dropTrailingCommas_append_blanks _ hg, ← htext]
  rw [hdrop, trimEnd_append_of_blank hg]
  -- the last character is no blank, and it stays
  rcases List.eq_nil_or_concat (dropTrailingCommas (trimEnd t)) with hnil | ⟨s, c, hconcat⟩
  · rw [hnil]
    rfl
  · rw [List.concat_eq_append] at hconcat
    have hlast : (trimEnd t).getLast? = some c := by
      rw [← getLast?_dropTrailingCommas, hconcat, List.getLast?_concat]
    obtain ⟨s', hs'⟩ := List.getLast?_eq_some_iff.mp hlast
    rw [hconcat, trimEnd_concat (isBlank_of_trimEnd hs')]

variable {v g : Text} {T : Tree}

/-- A text that is strict without its commas leaves nothing open, with blanks behind it. -/
theorem sameOpen_of_strict (hv : Scanned (fun _ => True) (fun q _ => q = '"') v)
    (hT : dropTrailingCommas (trimEnd v) = T.text .strict) (hg : ∀ c ∈ g, isBlank c = true) :
    Outline.SameOpen (Outline.ofText (v ++ g)) {} := by
  obtain ⟨b, htext, hb⟩ := exists_trimEnd_append v
  have hscanned : Scanned (fun _ => True) (fun q _ => q = '"') (trimEnd v) :=
    hv.beginning (fun _ h => h) (List.rdropWhile_prefix isBlank v)
  have hclosed : Outline.SameOpen (Outline.ofText (trimEnd v)) {} := by
    have hsame :
        Outline.SameOpen (Outline.ofText (T.text .strict)) (Outline.ofText (trimEnd v)) := by
      rw [← hT]
      exact Outline.SameOpen.dropTrailingCommas hscanned ⟨rfl, rfl⟩ rfl
    obtain ⟨cuts, houtline⟩ := Outline.passes_text [] T 0 []
    have hofText : Outline.ofText (T.text .strict) = ⟨[], .code, _, cuts⟩ := houtline
    rw [hofText] at hsame
    exact ⟨hsame.1.symm, hsame.2.symm⟩
  have hblanks : ∀ c ∈ b ++ g, isBlank c = true := List.forall_mem_append.mpr ⟨hb, hg⟩
  rw [htext, List.append_assoc, Outline.ofText_append]
  constructor
  · rw [Outline.closers_after_blanks _ hblanks]
    exact hclosed.1
  · exact Outline.place_after_code (fun c hc => isCode_of_isBlank (hblanks c hc)) hclosed.2

/-- **A text that is strict without its commas is closed to that strict text.** -/
theorem close?_of_strict (hv : Scanned (fun _ => True) (fun q _ => q = '"') v)
    (hT : dropTrailingCommas (trimEnd v) = T.text .strict) (hg : ∀ c ∈ g, isBlank c = true) :
    close? (v ++ g) = some (T.text .strict) := by
  have hends : ∀ c ∈ valueEnds, c ≠ ',' ∧ c ≠ ':' := by decide
  obtain ⟨hclosers, hplace⟩ := sameOpen_of_strict hv hT hg
  have hclose : closeString (Outline.ofText (v ++ g)) (v ++ g) = v ++ g := by
    unfold closeString
    rw [hplace]
  have hsettle : settleEnd (trimEnd v) = trimEnd v := by
    obtain ⟨s, c, hconcat, hc⟩ := exists_strict_eq_concat T
    have hlast : (trimEnd v).getLast? = some c := by
      rw [← getLast?_dropTrailingCommas, hT, hconcat, List.getLast?_concat]
    obtain ⟨s', hs'⟩ := List.getLast?_eq_some_iff.mp hlast
    rw [hs', settleEnd_concat s' (hends c hc).1 (hends c hc).2]
  unfold close?
  simp only
  rw [hclose, trimEnd_append_of_blank hg, hsettle, hclosers, List.append_nil, hT, isStrict,
    read_text_alone legible_strict T]
  rfl

/-- What mending makes of a text: the commas may be dropped last. -/
theorem applyAll_stages {s : Text} (h : Respells false (stripComments s) v) :
    applyAll Mend.stages s = dropTrailingCommas v := by
  have := h.dropTrailingCommas.stages_eq
  simp only [applyAll, Mend.stages, List.foldl_cons, List.foldl_nil, Stage.apply, quoteKeys_eq]
  exact this

/-- What completion makes of a text before it closes it. -/
theorem applyAll_completion {s : Text} (h : Respells false (stripComments s) v) :
    applyAll Completion.stages s = v := by
  have := h.stages_eq
  simp only [applyAll, Completion.stages, List.foldl_cons, List.foldl_nil, Stage.apply,
    quoteKeys_eq]
  exact this

/-- An opening bracket is the bracket of a container. -/
theorem exists_opener {c : Char} (h : Bracket.isOpener c = true) :
    ∃ k : Container, c = k.opener := by
  unfold Bracket.isOpener Bracket.closerOf? at h
  split at h
  · exact ⟨.map, rfl⟩
  · exact ⟨.array, rfl⟩
  · cases h

/-- A mended text is the text of a tree. -/
theorem exists_tree_of_mend? {t r : Text} (h : mend? t = some r) :
    trim (applyAll Mend.stages (trim t)) = r ∧ ∃ T : Tree, r = T.text .strict := by
  obtain ⟨hmended, hstrict⟩ := mend?_eq_some_iff.mp h
  refine ⟨hmended, exists_tree_of_trim hstrict ?_⟩
  rw [← hmended, trim_trim]

/-- **A document that can be mended as a whole is completed to the mended document.** -/
theorem complete_of_mend? {t r s : Text} {c : Char} (hstart : trim t = c :: s)
    (hopener : Bracket.isOpener c = true) (hmend : mend? t = some r)
    (hreturn : hasEscapedReturn (stripComments (trim t)) = false) : complete t = r := by
  obtain ⟨k, rfl⟩ := exists_opener hopener
  have hblank : isBlank k.opener = false := by cases k <;> rfl
  have hcode : isCode k.opener = true ∧ k.opener ≠ '/' ∧ k.opener ≠ ',' := by
    cases k <;> decide
  obtain ⟨before, after, htext, hbefore, hafter⟩ := exists_trim_append t
  rw [hstart] at htext hreturn
  obtain ⟨v, hv⟩ := exists_respells hreturn false
  -- the mended document is the respelled one without its commas
  obtain ⟨hmended, T, rfl⟩ := exists_tree_of_mend? hmend
  have hfirst : ∃ v', v = k.opener :: v' := by
    have := hv.stages_eq
    rw [stripComments, stripFrom_cons hcode.1 hcode.2.1, show keysAt false = .elsewhere from rfl,
      quoteKeysIn_elsewhere_cons hcode.1, spellLiterals_cons hcode.1] at this
    exact ⟨_, this.symm⟩
  have hT : dropTrailingCommas (trimEnd v) = T.text .strict := by
    obtain ⟨v', rfl⟩ := hfirst
    rw [hstart, applyAll_stages hv, dropTrailingCommas_cons hcode.1, if_neg (by simp [hcode.2.2]),
      trim, trimStart_cons hblank] at hmended
    rw [← hmended, ← trimEnd_dropTrailingCommas, dropTrailingCommas_cons hcode.1,
      if_neg (by simp [hcode.2.2])]
  -- blanks behind the document stay blanks
  obtain ⟨g, hg, hstrips⟩ := (strips (k.opener :: s)).append_blanks hafter
  have hplace : (Outline.ofText v).place = .code := by
    have := (sameOpen_of_strict (g := []) hv.scanned hT (by simp)).2
    rwa [List.append_nil] at this
  have hbody : Respells false (stripComments (k.opener :: s ++ after)) (v ++ g) := by
    rw [hstrips.stripComments_eq]
    rcases hv.append_blanks hg with hblanks | hopen
    · exact hblanks
    · exact absurd hplace (hopen {} rfl)
  have hfrom : Bracket.fromOpener t = k.opener :: (s ++ after) := by
    rw [htext]
    exact fromOpener_append hbefore k (s ++ after)
  unfold complete
  rw [hfrom]
  simp only
  rw [← List.cons_append, applyAll_completion hbody, close?_of_strict hv.scanned hT hg]

/-- **Completion agrees with mending where mending succeeds**: a text without carriage returns that
starts with a bracket and can be mended is completed to the mended text. -/
theorem complete_eq_mended {t r s : Text} {c : Char} (hreturn : '\r' ∉ t) (hstart : trim t = c :: s)
    (hopener : Bracket.isOpener c = true) (hmend : mend? t = some r) : complete t = r := by
  have hstripped : '\r' ∉ stripComments (trim t) := by
    intro hmem
    exact hreturn (((strips (trim t)).sublist.trans (trim_sublist t)).subset hmem)
  exact complete_of_mend? hstart hopener hmend (hasEscapedReturn_of_not_mem hstripped)

/-- A document with a comment, a bare key, single quotes, a line break in a literal and a comma too
many. -/
def looseNote : Text := " \x7ba: ['\n\"', /* b */],\x7d // c".toList

/-- The two agree on it. -/
theorem complete_looseNote :
    '\r' ∉ looseNote ∧ mend? looseNote = some "\x7b\"a\": [\"\\n\\\"\" ]\x7d".toList ∧
      complete looseNote = "\x7b\"a\": [\"\\n\\\"\" ]\x7d".toList := by
  have hreturn : '\r' ∉ looseNote := by decide +kernel
  have hstart : trim looseNote = '\x7b' :: "a: ['\n\"', /* b */],\x7d // c".toList := by
    decide +kernel
  have hmend : mend? looseNote = some "\x7b\"a\": [\"\\n\\\"\" ]\x7d".toList := by decide +kernel
  exact ⟨hreturn, hmend, complete_eq_mended hreturn hstart rfl hmend⟩

/-- A carriage return behind a backslash goes, and the backslash stands before the quote. Completion
then sees a comma in a literal, where mending saw one before a bracket. -/
example : mend? "[\"\\\r\",]\"]".toList = some "[\"\\\"]\"]".toList ∧
    complete "[\"\\\r\",]\"]".toList = "[\"\\\",]\"]".toList := by
  decide +kernel

/-! ## Recovery -/

/-- Mending starts with trimming. -/
theorem mend?_trim (t : Text) : mend? (trim t) = mend? t := by
  rw [mend?, mend?, trim_trim]

/-- A text that is one bracketed span, with blanks around it, is its only span. -/
theorem spans_trim {t s : Text} {c : Char} {quotes : List Char} (hstart : trim t = c :: s)
    (hopener : Bracket.isOpener c = true)
    (hspan : Bracket.spanLength? quotes (trim t) = some (trim t).length) :
    Bracket.spans quotes t = [trim t] := by
  obtain ⟨before, after, htext, hbefore, hafter⟩ := exists_trim_append t
  rw [hstart] at htext hspan
  rw [hstart, htext]
  exact Bracket.spans_eq_singleton (fun d hd => isOpener_of_isBlank (hbefore d hd))
    (fun d hd => isOpener_of_isBlank (hafter d hd)) hopener hspan

/-- **A document that can be mended as a whole is recovered as the mended document**, unless it is
not strict and a strict fragment of it comes first in the order of the search. That is a fenced
block, or, in a text that does not break off, a bracketed span, and then the document as a whole is
not one span: a bracket or quote in a comment or in a single-quoted literal ends a span early. In a
text that breaks off no carriage return stands behind a backslash in a literal. -/
theorem recover?_of_mend? {t r s : Text} {c : Char} (hstart : trim t = c :: s)
    (hopener : Bracket.isOpener c = true) (hmend : mend? t = some r) (done : Bool)
    (hreturn : done = false → isCutOff t = true →
      hasEscapedReturn (stripComments (trim t)) = false) :
    recover? t done = some r ∨ ∃ f, recover? t done = some f ∧ isStrict f = true ∧
      isStrict (trim t) = false ∧ (f ∈ fencedBlocks t ∨ f ∈ Bracket.spans strictQuotes t ∧
        (done = true ∨ isCutOff t = false) ∧
        Bracket.spanLength? strictQuotes (trim t) ≠ some (trim t).length) := by
  unfold recover?
  rcases hstrict : isStrict (trim t) with _ | _
  · rw [if_neg (by decide)]
    rcases hfence : (fencedBlocks t).find? isStrict with _ | f
    · dsimp only
      rcases hopen : !done && isCutOff t with _ | _
      · rw [if_neg (by decide)]
        rcases hspans : (Bracket.spans strictQuotes t).find? isStrict with _ | f
        · -- the trimmed text is the first candidate for mending
          left
          rw [mendCandidates, List.cons_append, List.findSome?_cons, mend?_trim, hmend]
        · right
          have hf : isStrict f = true := List.find?_some hspans
          have hmem := List.mem_of_find?_eq_some hspans
          refine ⟨f, rfl, hf, rfl, .inr ⟨hmem, ?_, ?_⟩⟩
          · rw [Bool.and_eq_false_iff, Bool.not_eq_false'] at hopen
            exact hopen
          · intro hwhole
            rw [spans_trim hstart hopener hwhole, List.mem_singleton] at hmem
            rw [hmem, hstrict] at hf
            cases hf
      · left
        rw [Bool.and_eq_true, Bool.not_eq_true'] at hopen
        rw [if_pos rfl, complete_of_mend? hstart hopener hmend (hreturn hopen.1 hopen.2)]
    · right
      exact ⟨f, rfl, List.find?_some hfence, rfl, .inl (List.mem_of_find?_eq_some hfence)⟩
  · left
    have := mend?_of_isStrict hstrict
    rw [mend?_trim, hmend, trim_trim] at this
    rw [if_pos rfl, this]

/-- A document that seems to break off, since strict text knows no single quotes. -/
theorem recover?_quote_in_quotes :
    trim "['\"',]".toList = '[' :: "'\"',]".toList ∧ isCutOff "['\"',]".toList = true ∧
      hasEscapedReturn (stripComments (trim "['\"',]".toList)) = false ∧
      mend? "['\"',]".toList = some "[\"\\\"\"]".toList ∧
      recover? "['\"',]".toList false = some "[\"\\\"\"]".toList := by
  have hstart : trim "['\"',]".toList = '[' :: "'\"',]".toList := by decide
  have hcut : isCutOff "['\"',]".toList = true := by decide
  have hreturn : hasEscapedReturn (stripComments (trim "['\"',]".toList)) = false := by decide
  have hmend : mend? "['\"',]".toList = some "[\"\\\"\"]".toList := by decide
  have hfence : fencedBlocks "['\"',]".toList = [] := by decide
  refine ⟨hstart, hcut, hreturn, hmend, ?_⟩
  rcases recover?_of_mend? hstart rfl hmend false (fun _ _ => hreturn) with
    hwhole | ⟨f, -, -, -, hblock | ⟨-, hdone | hcut', -⟩⟩
  · exact hwhole
  · rw [hfence] at hblock
    cases hblock
  · cases hdone
  · rw [hcut] at hcut'
    cases hcut'

/-- A fragment in a comment is a span of its own, and it comes before the mended document. -/
theorem recover?_fragment_in_comment :
    mend? "[1,]//[]".toList = some "[1]".toList ∧
      ∀ done, recover? "[1,]//[]".toList done = some "[]".toList := by
  decide +kernel

end ShapedReply
