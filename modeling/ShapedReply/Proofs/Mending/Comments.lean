import ShapedReply.Proofs.Mending.Strings

/-!
# Stripping comments from any text

The stage that strips comments goes along a text in steps: a character of code, a literal, or a
comment that ends with its line, with its mark or with the text. `Strips` is the relation of a text
to what is left of it, one constructor for each step, and `strips` says that the stage computes it.
What holds of all texts is then an induction on the steps.

* `Strips.sublist`: **nothing is in what is left of a text but what was in the text.**
* `Strips.append_blanks`: **blanks behind a text leave blanks behind what is left of it.**
-/

namespace ShapedReply

open Text Mend

/-- `Strips t v`: without its comments the text `t` is `v`. -/
inductive Strips : Text → Text → Prop where
  | nil : Strips [] []
  | code {c : Char} {r v : Text} : isCode c = true → (c = '/' → ∀ d ∈ r.head?, d ≠ '/' ∧ d ≠ '*') →
      Strips r v → Strips (c :: r) (c :: v)
  | line {body r v : Text} : '\n' ∉ body → Strips r v →
      Strips ('/' :: '/' :: (body ++ '\n' :: r)) ('\n' :: v)
  | lineEnd {body : Text} : '\n' ∉ body → Strips ('/' :: '/' :: body) []
  | block {body r v : Text} : ¬ ['*', '/'] <:+: body → Strips r v →
      Strips ('/' :: '*' :: (body ++ '*' :: '/' :: r)) v
  | blockEnd {body : Text} : ¬ ['*', '/'] <:+: body → Strips ('/' :: '*' :: body) []
  | literal {q : Char} {body r v : Text} : isCode q = false → Sealed q body → Strips r v →
      Strips (q :: (body ++ q :: r)) (q :: (body ++ q :: v))
  | unclosed {q : Char} {w : Text} : isCode q = false → Unclosed q w → Strips (q :: w) (q :: w)

/-! ## The stage computes the relation -/

/-- A slash that starts no comment is a character of code. -/
theorem stripFrom_slash {r : Text} (h : ∀ d ∈ r.head?, d ≠ '/' ∧ d ≠ '*') :
    stripFrom .code ('/' :: r) = '/' :: stripFrom .code r := by
  rw [stripFrom]
  · rfl
  · rintro s - rfl
    exact absurd rfl (h '/' rfl).1
  · rintro s - rfl
    exact absurd rfl (h '*' rfl).2

/-- A comment without its mark goes to the end of the text. -/
theorem stripFrom_block_end {body : Text} (h : ¬ ['*', '/'] <:+: body) :
    stripFrom .block body = [] := by
  induction body with
  | nil => rfl
  | cons c body ih =>
    have hbody : ¬ ['*', '/'] <:+: body := fun hin =>
      h (hin.trans (List.suffix_cons c body).isInfix)
    rw [stripFrom, ih hbody]
    rintro s rfl rfl
    exact h ⟨[], s, rfl⟩

/-- The steps of the relation are the steps of the stage. -/
theorem Strips.stripComments_eq {t v : Text} (h : Strips t v) : stripComments t = v := by
  rw [stripComments]
  induction h with
  | nil => rfl
  | @code c r v hc hslash _ ih =>
    by_cases hc' : c = '/'
    · subst hc'
      rw [stripFrom_slash (hslash rfl), ih]
    · rw [stripFrom_cons hc hc', ih]
  | line hbody _ ih => rw [stripFrom, stripFrom_line hbody, ih]
  | lineEnd hbody => rw [stripFrom, stripFrom_line_end hbody]
  | block hbody _ ih => rw [stripFrom, stripFrom_block hbody, ih]
  | blockEnd hbody => rw [stripFrom, stripFrom_block_end hbody]
  | literal hq hsealed _ ih => rw [stripFrom_literal hq hsealed, ih]
  | unclosed hq hw => exact stripFrom_unclosed hq hw

/-- A text has a first mark, or none. -/
theorem exists_mark_or_not (t : Text) :
    (∃ body r, ¬ ['*', '/'] <:+: body ∧ t = body ++ '*' :: '/' :: r) ∨ ¬ ['*', '/'] <:+: t := by
  induction t with
  | nil => exact .inr (by simp)
  | cons c t ih =>
    by_cases hmark : ['*', '/'] <+: c :: t
    · obtain ⟨r, hr⟩ := hmark
      exact .inl ⟨[], r, by simp, hr.symm⟩
    have hcons : ∀ s, s <+: t → ¬ ['*', '/'] <:+: s → ¬ ['*', '/'] <:+: c :: s := by
      intro s hs hnot hin
      rcases List.infix_cons_iff.mp hin with hstart | hin
      · exact hmark (hstart.trans (List.cons_prefix_cons.mpr ⟨rfl, hs⟩))
      · exact hnot hin
    rcases ih with ⟨body, r, hbody, rfl⟩ | hnone
    · exact .inl ⟨c :: body, r, hcons body (List.prefix_append _ _) hbody, rfl⟩
    · exact .inr (hcons t List.prefix_rfl hnone)

/-- A slash starts a comment, or it does not. -/
theorem slash_cases (t : Text) :
    (∀ d ∈ t.head?, d ≠ '/' ∧ d ≠ '*') ∨ (∃ r, t = '/' :: r) ∨ ∃ r, t = '*' :: r := by
  rcases t with _ | ⟨d, r⟩
  · exact .inl fun d hd => by cases hd
  by_cases hline : d = '/'
  · exact .inr (.inl ⟨r, by rw [hline]⟩)
  by_cases hblock : d = '*'
  · exact .inr (.inr ⟨r, by rw [hblock]⟩)
  · left
    intro e he
    cases he
    exact ⟨hline, hblock⟩

/-- Every text can be gone along in these steps. -/
theorem exists_strips {n : Nat} {t : Text} (hn : t.length ≤ n) : ∃ v, Strips t v := by
  induction n generalizing t with
  | zero =>
    rw [List.length_eq_zero_iff.mp (Nat.le_zero.mp hn)]
    exact ⟨[], .nil⟩
  | succ n ih =>
    rcases t with _ | ⟨c, t⟩
    · exact ⟨[], .nil⟩
    rw [List.length_cons] at hn
    have behind : ∀ s r : Text, t = s ++ r → ∃ v, Strips r v := by
      rintro s r rfl
      rw [List.length_append] at hn
      exact ih (by omega)
    rcases hc : isCode c with _ | _
    · rcases sealed_or_unclosed (ne_backslash hc) t with ⟨body, r, hsealed, ht⟩ | hopen
      · obtain ⟨v, hv⟩ := behind (body ++ [c]) r (by simp [ht])
        rw [ht]
        exact ⟨_, .literal hc hsealed hv⟩
      · exact ⟨_, .unclosed hc hopen⟩
    by_cases hslash : c = '/'
    · subst hslash
      rcases slash_cases t with hnext | ⟨s, rfl⟩ | ⟨s, rfl⟩
      · obtain ⟨v, hv⟩ := behind [] t rfl
        exact ⟨_, .code hc (fun _ => hnext) hv⟩
      · by_cases hline : '\n' ∈ s
        · obtain ⟨body, r, hs, hbody⟩ := List.eq_append_cons_of_mem hline
          obtain ⟨v, hv⟩ := behind ('/' :: (body ++ ['\n'])) r (by simp [hs])
          rw [hs]
          exact ⟨_, .line hbody hv⟩
        · exact ⟨_, .lineEnd hline⟩
      · rcases exists_mark_or_not s with ⟨body, r, hbody, hs⟩ | hnone
        · obtain ⟨v, hv⟩ := behind ('*' :: (body ++ ['*', '/'])) r (by simp [hs])
          rw [hs]
          exact ⟨_, .block hbody hv⟩
        · exact ⟨_, .blockEnd hnone⟩
    · obtain ⟨v, hv⟩ := behind [] t rfl
      exact ⟨_, .code hc (fun h => absurd h hslash) hv⟩

/-- What the stage leaves of a text is what the relation says. -/
theorem strips (t : Text) : Strips t (stripComments t) := by
  obtain ⟨v, hv⟩ := exists_strips (Nat.le_refl t.length)
  rwa [hv.stripComments_eq]

/-- **Stripping only takes away.** -/
theorem Strips.sublist {t v : Text} (h : Strips t v) : List.Sublist v t := by
  induction h with
  | nil => exact .slnil
  | code _ _ _ ih => exact ih.cons_cons _
  | @line body r v _ _ ih =>
    apply List.Sublist.cons
    apply List.Sublist.cons
    exact (ih.cons_cons '\n').trans (List.sublist_append_right body _)
  | lineEnd => exact List.nil_sublist _
  | @block body r v _ _ ih =>
    apply List.Sublist.cons
    apply List.Sublist.cons
    exact ((ih.cons '/').cons '*').trans (List.sublist_append_right body _)
  | blockEnd => exact List.nil_sublist _
  | @literal q body r v _ _ _ ih => exact ((ih.cons_cons q).append_left body).cons_cons q
  | unclosed => exact List.Sublist.refl _

/-! ## Blanks behind a text -/

/-- Blanks are code and start no comment. -/
theorem strips_blanks {g : Text} (hg : ∀ c ∈ g, isBlank c = true) : Strips g g := by
  induction g with
  | nil => exact .nil
  | cons c g ih =>
    rw [List.forall_mem_cons] at hg
    refine .code (isCode_of_isBlank hg.1) ?_ (ih hg.2)
    rintro rfl
    exact absurd hg.1 (by decide)

/-- An open literal stays open behind blanks. -/
theorem Unclosed.append_blanks {q : Char} (hq : isCode q = false) {w g : Text} (h : Unclosed q w)
    (hg : ∀ c ∈ g, isBlank c = true) : Unclosed q (w ++ g) := by
  have hsealed : ∀ {g : Text}, (∀ c ∈ g, isBlank c = true) → Sealed q g := by
    intro g hg
    apply sealed_of_forall_ne
    intro c hc
    have hblank := hg c hc
    constructor
    · rintro rfl
      exact absurd hblank (by decide)
    · rintro rfl
      rcases isCode_eq_false_iff.mp hq with rfl | rfl <;> exact absurd hblank (by decide)
  rcases h with h | ⟨v, h, rfl⟩
  · exact .inl (h.append (hsealed hg))
  · rcases g with _ | ⟨c, g⟩
    · rw [List.append_nil]
      exact .inr ⟨v, h, rfl⟩
    · rw [List.forall_mem_cons] at hg
      rw [List.append_assoc]
      exact .inl (h.append (.escaped (hsealed hg.2)))

/-- Where no slash follows, no mark is made. -/
theorem not_mark_append {body g : Text} (hbody : ¬ ['*', '/'] <:+: body) (hg : '/' ∉ g) :
    ¬ ['*', '/'] <:+: body ++ g := by
  induction body with
  | nil => exact fun hin => hg (hin.mem (by decide : '/' ∈ ['*', '/']))
  | cons c body ih =>
    have hrest := ih fun hin => hbody (hin.trans (List.suffix_cons c body).isInfix)
    rw [List.cons_append]
    intro hin
    rcases List.infix_cons_iff.mp hin with hstart | hin
    · -- the mark starts here, and its slash is in `body` or in `g`
      obtain ⟨rfl, hslash⟩ := List.cons_prefix_cons.mp hstart
      rcases body with _ | ⟨d, body⟩
      · exact hg (hslash.mem List.mem_cons_self)
      · rw [List.cons_append, List.cons_prefix_cons] at hslash
        obtain ⟨rfl, -⟩ := hslash
        exact hbody ⟨[], body, rfl⟩
    · exact hrest hin

/-- **Blanks behind a text leave blanks behind what is left of it.** -/
theorem Strips.append_blanks {t v g : Text} (h : Strips t v) (hg : ∀ c ∈ g, isBlank c = true) :
    ∃ g', (∀ c ∈ g', isBlank c = true) ∧ Strips (t ++ g) (v ++ g') := by
  have hslash : '/' ∉ g := fun hmem => absurd (hg '/' hmem) (by decide)
  induction h with
  | nil => exact ⟨g, hg, strips_blanks hg⟩
  | @code c r v hc hnext _ ih =>
    obtain ⟨g', hg', hrest⟩ := ih
    refine ⟨g', hg', .code hc ?_ hrest⟩
    intro hc' d hd
    rcases r with _ | ⟨e, r⟩
    · have hblank := hg d (List.mem_of_mem_head? hd)
      constructor
      · rintro rfl
        exact absurd hblank (by decide)
      · rintro rfl
        exact absurd hblank (by decide)
    · exact hnext hc' d hd
  | @line body r v hbody _ ih =>
    obtain ⟨g', hg', hrest⟩ := ih
    refine ⟨g', hg', ?_⟩
    have := Strips.line hbody hrest
    simpa using this
  | @lineEnd body hbody =>
    by_cases hline : '\n' ∈ g
    · obtain ⟨g₁, g₂, rfl, hg₁⟩ := List.eq_append_cons_of_mem hline
      rw [List.forall_mem_append, List.forall_mem_cons] at hg
      have hbody' : '\n' ∉ body ++ g₁ := by
        rw [List.mem_append, not_or]
        exact ⟨hbody, hg₁⟩
      refine ⟨'\n' :: g₂, List.forall_mem_cons.mpr hg.2, ?_⟩
      have := Strips.line hbody' (strips_blanks hg.2.2)
      simpa using this
    · refine ⟨[], by simp, ?_⟩
      have hbody' : '\n' ∉ body ++ g := by
        rw [List.mem_append, not_or]
        exact ⟨hbody, hline⟩
      exact .lineEnd hbody'
  | @block body r v hbody _ ih =>
    obtain ⟨g', hg', hrest⟩ := ih
    refine ⟨g', hg', ?_⟩
    have := Strips.block hbody hrest
    simpa using this
  | blockEnd hbody => exact ⟨[], by simp, .blockEnd (not_mark_append hbody hslash)⟩
  | @literal q body r v hq hsealed _ ih =>
    obtain ⟨g', hg', hrest⟩ := ih
    refine ⟨g', hg', ?_⟩
    have := Strips.literal hq hsealed hrest
    simpa using this
  | @unclosed q w hq hw => exact ⟨g, hg, .unclosed hq (hw.append_blanks hq hg)⟩

end ShapedReply
