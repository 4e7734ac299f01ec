import ShapedReply.Loose.Completion
import ShapedReply.Proofs.Completion.Cut
import ShapedReply.Proofs.Spelling.Alphabet

/-!
# The stages of mending on beginnings of strict text

Before a document that breaks off is closed, it goes through the stages of mending that need no
closing bracket. A beginning of strict text has nothing for them to do: it has no comments and no
single quotes, its literals have no control characters, and its keys have their quotes.

`stages_beginning`: **the stages leave every beginning of a strict tree as it is.** Three of the
stages look at code and literals only, and what they need, `Clean`, is passed on to every beginning.
The stage that quotes keys looks ahead for a colon, and sees no more of them in a beginning than in
the whole.
-/

namespace ShapedReply

open Text Reader Spelling Mend

/-! ## Clean text -/

/-- Text without comments, single quotes and raw control characters. -/
abbrev Clean : Text → Prop :=
  Scanned (· ≠ '/') fun q body => q = '"' ∧ ∀ c ∈ body, 0x20 ≤ c.toNat

/-- A beginning of a text is scanned as the text is, if what stands in a literal may break off. -/
theorem Scanned.beginning {C : Char → Prop} {L : Char → Text → Prop}
    (hL : ∀ {q : Char} {w v : Text}, v <+: w → L q w → L q v) {t : Text} (h : Scanned C L t)
    {p : Text} (hp : p <+: t) : Scanned C L p := by
  induction h generalizing p with
  | nil =>
    rw [List.prefix_nil.mp hp]
    exact .nil
  | @code c r hcode hc _ ih =>
    rcases List.prefix_cons_iff.mp hp with rfl | ⟨q, rfl, hq⟩
    · exact .nil
    · exact .code hcode hc (ih hq)
  | @literal quote body r hquote hsealed hbody _ ih =>
    rcases List.prefix_cons_iff.mp hp with rfl | ⟨q, rfl, hq⟩
    · exact .nil
    rcases proper_or_behind_of_prefix_append hq with ⟨hw, -⟩ | ⟨s, rfl, hs⟩
    · exact .unclosed hquote (hsealed.unclosed hw) (hL hw hbody)
    rcases List.prefix_cons_iff.mp hs with rfl | ⟨u, rfl, hu⟩
    · rw [List.append_nil]
      exact .unclosed hquote (.inl hsealed) hbody
    · exact .literal hquote hsealed hbody (ih hu)
  | @unclosed quote w hquote hw hbody =>
    rcases List.prefix_cons_iff.mp hp with rfl | ⟨q, rfl, hq⟩
    · exact .nil
    · exact .unclosed hquote (hw.beginning hq) (hL hq hbody)

namespace Clean

variable {t : Text}

/-- A beginning of clean text is clean. -/
theorem beginning (h : Clean t) {p : Text} (hp : p <+: t) : Clean p :=
  Scanned.beginning (fun hv hw => ⟨hw.1, fun c hc => hw.2 c (hv.mem hc)⟩) h hp

/-- There are no comments to strip. -/
theorem stripComments_eq (h : Clean t) : stripComments t = t := by
  rw [stripComments]
  induction h with
  | nil => rfl
  | code hc hslash _ ih => rw [stripFrom_cons hc hslash, ih]
  | literal hq hsealed _ _ ih => rw [stripFrom_literal hq hsealed, ih]
  | unclosed hq hw _ => exact stripFrom_unclosed hq hw

/-- There are no single quotes to change. -/
theorem requote_eq (h : Clean t) : requote t = t := by
  induction h with
  | nil => rfl
  | code hc _ _ ih => rw [requote_cons hc, ih]
  | literal hq hsealed hbody _ ih =>
    obtain ⟨rfl, -⟩ := hbody
    rw [requote_literal hq hsealed, if_neg (by decide), ih]
  | unclosed hq hw hbody =>
    obtain ⟨rfl, -⟩ := hbody
    rw [requote_unclosed hq hw, if_neg (by decide)]

/-- There are no control characters to escape. -/
theorem escapeControls_eq (h : Clean t) : escapeControls t = t := by
  induction h with
  | nil => rfl
  | code hc _ _ ih => rw [escapeControls_cons hc, ih]
  | literal hq hsealed hbody _ ih =>
    rw [escapeControls_literal hq hsealed, flatMap_escapeControl_of_le hbody.2, ih]
  | unclosed hq hw hbody => rw [escapeControls_unclosed hq hw, flatMap_escapeControl_of_le hbody.2]

/-- A beginning shows no more colons than the whole. -/
theorem endsKey_of_beginning {p r : Text} (hp : p <+: r) (h : endsKey p = true) :
    endsKey r = true := by
  obtain ⟨s, rfl⟩ := hp
  unfold endsKey trimStart at h ⊢
  rcases hd : (p.dropWhile Text.isNamePart).dropWhile isBlank with _ | ⟨c, r⟩
  · rw [hd] at h
    cases h
  · have hne : ¬ (p.dropWhile Text.isNamePart).isEmpty = true := by
      intro hempty
      rw [List.isEmpty_iff.mp hempty] at hd
      cases hd
    rw [List.dropWhile_append, if_neg hne, List.dropWhile_append, hd]
    rw [hd] at h
    exact h

/-- If quoting keys leaves clean text as it is, it leaves its beginnings as they are. -/
theorem quoteKeysIn_eq (h : Clean t) {st : Keys} (hst : quoteKeysFrom st [] = []) {p : Text}
    (hp : p <+: t) (ht : quoteKeysIn st t = t) : quoteKeysIn st p = p := by
  have hnil : ∀ {st : Keys}, quoteKeysFrom st [] = [] → quoteKeysIn st [] = [] := by
    intro st hst
    show quoteKeysFrom st [] ++ [] = []
    rw [hst, List.append_nil]
  have hnext : ∀ b : Bool, quoteKeysFrom (if b then .expected else .elsewhere) [] = [] := by
    decide
  induction h generalizing p st with
  | nil =>
    rw [List.prefix_nil.mp hp]
    exact ht
  | @code c r hc _ _ ih =>
    rcases List.prefix_cons_iff.mp hp with rfl | ⟨q, rfl, hq⟩
    · exact hnil hst
    cases st with
    | elsewhere =>
      rw [quoteKeysIn_elsewhere_cons hc] at ht ⊢
      rw [ih (hnext _) hq (List.cons.inj ht).2]
    | expected =>
      rw [quoteKeysIn_expected_cons hc] at ht
      split at ht
      · -- a key that gets its quotes would not leave the text as it is
        rw [← (List.cons.inj ht).1] at hc
        cases hc
      · next hkey =>
        have hkey' : ¬ (Text.isNameStart c && endsKey q) = true := by
          intro h
          rw [Bool.and_eq_true] at h
          exact hkey (by rw [h.1, endsKey_of_beginning hq h.2]; rfl)
        rw [quoteKeysIn_expected_cons hc, if_neg hkey', ih (hnext _) hq (List.cons.inj ht).2]
    | inside => cases hst
  | @literal quote body r hquote hsealed _ _ ih =>
    rcases List.prefix_cons_iff.mp hp with rfl | ⟨q, rfl, hq⟩
    · exact hnil hst
    rcases proper_or_behind_of_prefix_append hq with ⟨hw, -⟩ | ⟨s, rfl, hs⟩
    · exact quoteKeysIn_unclosed hst hquote (hsealed.unclosed hw)
    rcases List.prefix_cons_iff.mp hs with rfl | ⟨u, rfl, hu⟩
    · rw [List.append_nil]
      exact quoteKeysIn_unclosed hst hquote (.inl hsealed)
    · rw [quoteKeysIn_literal hst hquote hsealed] at ht ⊢
      have hr : quoteKeysIn .elsewhere r = r := by simpa using ht
      rw [ih rfl hu hr]
  | @unclosed quote w hquote hw _ =>
    rcases List.prefix_cons_iff.mp hp with rfl | ⟨q, rfl, hq⟩
    · exact hnil hst
    · exact quoteKeysIn_unclosed hst hquote (hw.beginning hq)

end Clean

/-! ## Strict trees -/

/-- A strict tree is clean: no slash is among the characters of its code. -/
theorem clean_text (T : Tree) : Clean (T.text .strict) := by
  apply (neat_text T).mono
  rintro c hc rfl
  exact absurd hc (by decide)

/-- **The stages before closing leave every beginning of a strict tree as it is.** -/
theorem stages_beginning (T : Tree) {p : Text} (hp : p <+: T.text .strict) :
    applyAll Completion.stages p = p := by
  have hclean := clean_text T
  have hkeys : quoteKeysIn .elsewhere (T.text .strict) = T.text .strict := by
    have := carriesKeys_strict.between T blank_nil blank_nil
    rwa [quoteKeys_eq, List.nil_append, List.append_nil] at this
  have hp' := hclean.beginning hp
  simp only [applyAll, Completion.stages, List.foldl_cons, List.foldl_nil, Stage.apply]
  rw [hp'.stripComments_eq, quoteKeys_eq, hclean.quoteKeysIn_eq rfl hp hkeys, hp'.requote_eq,
    hp'.escapeControls_eq]

end ShapedReply
