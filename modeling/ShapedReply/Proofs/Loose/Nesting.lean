import ShapedReply.Proofs.Loose.Fragments
import ShapedReply.Proofs.Loose.Scanning

/-!
# Nested brackets

The search for spans keeps a stack of closers and a place with respect to literals. What it finds is
told without either: `Nested` is the grammar of texts in which the brackets outside literals are
nested and matched in kind, and `depth` counts how many of them are open. A span (`IsSpan`) is
nested text from an opening bracket up to where the depth is zero for the first time.

* `isSpan_iff`: a span is nested text between an opening bracket and its closer. So the depth says
  where nested text is to be cut, and the grammar says what is left.
* `closingAt?_nested`, `closedFrom_of_closingAt?`: the search passes over nested text, and what it
  has passed over when it ends is nested between the closers that it waited for.
* `spanLength?_of_isSpan`, `isSpan_of_spanLength?`: so it finds the span at an opening bracket, if
  there is one.
* `exists_isListing_spans`: **the spans of a text lie one behind the other, and outside of them no
  span starts.**
-/

namespace ShapedReply.Bracket

variable {quotes : List Char}

/-! ## Texts with nested brackets -/

/-- Whether a character outside literals is neither a bracket nor a quote. -/
def isPlain (quotes : List Char) (c : Char) : Bool :=
  !isOpener c && !isCloser c && !quotes.contains c

/-- `Nested quotes t`: the literals in `t` are closed, and the brackets outside of them are nested
and matched in kind. -/
inductive Nested (quotes : List Char) : Text → Prop where
  | nil : Nested quotes []
  | plain {c : Char} {r : Text} : isPlain quotes c = true → Nested quotes r → Nested quotes (c :: r)
  | literal {q : Char} {body r : Text} : q ∈ quotes → Sealed q body → Nested quotes r →
      Nested quotes (q :: (body ++ q :: r))
  | group {o k : Char} {inner r : Text} : closerOf? o = some k → Nested quotes inner →
      Nested quotes r → Nested quotes (o :: (inner ++ k :: r))

/-- The quotes of a scan are among the two that there are. -/
def AreQuotes (quotes : List Char) : Prop := ∀ q ∈ quotes, isCode q = false

/-- Neither of the loose quotes is a bracket or a backslash. -/
theorem areQuotes_loose : AreQuotes looseQuotes := by
  intro q hq
  rw [isCode, Bool.not_eq_false']
  exact List.contains_iff_mem.mpr hq

/-- The strict quote is no bracket and no backslash. -/
theorem areQuotes_strict : AreQuotes strictQuotes :=
  fun q hq => areQuotes_loose q (List.mem_cons.mpr (.inl (List.mem_singleton.mp hq)))

/-- Nested texts are nested one behind the other. -/
theorem Nested.append {s t : Text} (hs : Nested quotes s) (ht : Nested quotes t) :
    Nested quotes (s ++ t) := by
  induction hs with
  | nil => exact ht
  | plain hc _ ih => exact .plain hc ih
  | @literal q body r hq hbody _ ih =>
    rw [List.cons_append, List.append_assoc, List.cons_append]
    exact .literal hq hbody ih
  | @group o k inner r hk hinner _ _ ih =>
    rw [List.cons_append, List.append_assoc, List.cons_append]
    exact .group hk hinner ih

/-- The two pairs of brackets. -/
theorem closerOf?_eq_some_iff {o k : Char} :
    closerOf? o = some k ↔ (o = '{' ∧ k = '}') ∨ (o = '[' ∧ k = ']') := by
  constructor
  · intro h
    unfold closerOf? at h
    split at h
    · exact .inl ⟨rfl, (Option.some.inj h).symm⟩
    · exact .inr ⟨rfl, (Option.some.inj h).symm⟩
    · cases h
  · rintro (⟨rfl, rfl⟩ | ⟨rfl, rfl⟩) <;> rfl

/-- A closing bracket closes and does not open. -/
theorem closer_of_closerOf? {o k : Char} (h : closerOf? o = some k) :
    closerOf? k = none ∧ isCloser k = true := by
  rcases closerOf?_eq_some_iff.mp h with ⟨-, rfl⟩ | ⟨-, rfl⟩ <;> exact ⟨rfl, rfl⟩

/-- A plain character is no bracket and stays in code. -/
theorem code_of_isPlain {c : Char} (h : isPlain quotes c = true) :
    closerOf? c = none ∧ isCloser c = false ∧ Place.next quotes .code c = .code := by
  simp only [isPlain, isOpener, Bool.and_eq_true, Bool.not_eq_true'] at h
  obtain ⟨⟨hopener, hcloser⟩, hquote⟩ := h
  refine ⟨Option.isSome_eq_false_iff.mp hopener |> Option.isNone_iff_eq_none.mp, hcloser, ?_⟩
  rw [Place.next, hquote, if_neg (by decide)]

/-- A quote is no bracket and starts a literal. -/
theorem code_of_mem_quotes (hquotes : AreQuotes quotes) {q : Char} (hq : q ∈ quotes) :
    closerOf? q = none ∧ isCloser q = false ∧ Place.next quotes .code q = .inside q := by
  have hnext : Place.next quotes .code q = .inside q := by
    rw [Place.next, if_pos (List.contains_iff_mem.mpr hq)]
  rcases isCode_eq_false_iff.mp (hquotes q hq) with rfl | rfl <;> exact ⟨rfl, rfl, hnext⟩

/-- A bracket opens no literal. -/
theorem next_of_bracket (hquotes : AreQuotes quotes) {c : Char}
    (h : isOpener c = true ∨ isCloser c = true) : Place.next quotes .code c = .code := by
  have hnot : ¬ c ∈ quotes := by
    intro hq
    obtain ⟨hopener, hcloser, -⟩ := code_of_mem_quotes hquotes hq
    rw [isOpener, hopener, hcloser] at h
    exact absurd h (by decide)
  rw [Place.next, if_neg (mt List.contains_iff_mem.mp hnot)]

/-! ## The depth -/

/-- What a character outside literals adds to the depth. -/
def weight (c : Char) : Int :=
  if isOpener c then 1 else if isCloser c then -1 else 0

/-- How many brackets a text opens and does not close, given where the scan stands. -/
def depthFrom (quotes : List Char) : Place → Text → Int
  | _, [] => 0
  | .code, c :: r => weight c + depthFrom quotes (Place.next quotes .code c) r
  | place, c :: r => depthFrom quotes (place.next quotes c) r

/-- How many brackets outside literals a text opens and does not close. -/
def depth (quotes : List Char) (t : Text) : Int := depthFrom quotes .code t

/-- A plain character does not change the depth. -/
theorem depth_plain {c : Char} (hc : isPlain quotes c = true) (r : Text) :
    depth quotes (c :: r) = depth quotes r := by
  obtain ⟨hopener, hcloser, hnext⟩ := code_of_isPlain hc
  rw [depth, depthFrom, hnext, weight, isOpener, hopener, hcloser]
  exact Int.zero_add _

/-- An opening bracket leads one deeper. -/
theorem depth_opener (hquotes : AreQuotes quotes) {o k : Char} (h : closerOf? o = some k)
    (r : Text) :
    depth quotes (o :: r) = 1 + depth quotes r := by
  have hopener : isOpener o = true := by rw [isOpener, h, Option.isSome_some]
  rw [depth, depthFrom, next_of_bracket hquotes (.inl hopener), weight, if_pos hopener]
  rfl

/-- A closing bracket leads back by one. -/
theorem depth_closer (hquotes : AreQuotes quotes) {o k : Char} (h : closerOf? o = some k)
    (r : Text) :
    depth quotes (k :: r) = -1 + depth quotes r := by
  obtain ⟨hopener, hcloser⟩ := closer_of_closerOf? h
  rw [depth, depthFrom, next_of_bracket hquotes (.inr hcloser), weight, isOpener, hopener,
    if_pos hcloser]
  rfl

/-- Behind a quote the depth is that of a literal. -/
theorem depth_quote (hquotes : AreQuotes quotes) {q : Char} (hq : q ∈ quotes) (r : Text) :
    depth quotes (q :: r) = depthFrom quotes (.inside q) r := by
  obtain ⟨hopener, hcloser, hnext⟩ := code_of_mem_quotes hquotes hq
  rw [depth, depthFrom, hnext, weight, isOpener, hopener, hcloser]
  exact Int.zero_add _

/-- The quote of a literal leads back to code. -/
theorem depthFrom_inside_quote {q : Char} (hq : q ≠ '\\') (r : Text) :
    depthFrom quotes (.inside q) (q :: r) = depth quotes r := by
  rw [depthFrom, Place.next, if_neg hq, if_pos rfl, depth]
  exact Place.noConfusion

/-- A character of a literal does not change the depth. -/
theorem depthFrom_inside_plain {q c : Char} (hescape : c ≠ '\\') (hquote : c ≠ q) (r : Text) :
    depthFrom quotes (.inside q) (c :: r) = depthFrom quotes (.inside q) r := by
  rw [depthFrom, Place.next, if_neg hescape, if_neg hquote]
  exact Place.noConfusion

/-- An escaped character of a literal does not change the depth. -/
theorem depthFrom_inside_escaped {q c : Char} (r : Text) :
    depthFrom quotes (.inside q) ('\\' :: c :: r) = depthFrom quotes (.inside q) r := rfl

/-- A literal adds nothing to the depth. -/
theorem depthFrom_sealed {q : Char} (hq : q ≠ '\\') {body : Text} (h : Sealed q body) (r : Text) :
    depthFrom quotes (.inside q) (body ++ q :: r) = depth quotes r := by
  induction h with
  | nil => exact depthFrom_inside_quote hq r
  | plain hescape hquote _ ih => rw [List.cons_append, depthFrom_inside_plain hescape hquote, ih]
  | escaped _ ih => rw [List.cons_append, List.cons_append, depthFrom_inside_escaped, ih]

/-- **Behind nested text the depth is what it was before.** -/
theorem Nested.depth_append (hquotes : AreQuotes quotes) {s : Text} (h : Nested quotes s)
    (r : Text) :
    depth quotes (s ++ r) = depth quotes r := by
  induction h generalizing r with
  | nil => rfl
  | plain hc _ ih => rw [List.cons_append, depth_plain hc, ih]
  | @literal q body s hq hbody _ ih =>
    have hne := ne_backslash (hquotes q hq)
    rw [List.cons_append, List.append_assoc, List.cons_append, depth_quote hquotes hq,
      depthFrom_sealed hne hbody, ih]
  | @group o k inner s hk _ _ ihinner ih =>
    rw [List.cons_append, List.append_assoc, List.cons_append, depth_opener hquotes hk, ihinner,
      depth_closer hquotes hk, ih, Int.add_neg_cancel_left]

/-- Inside a literal and behind it the depth is never less than in the text behind it. -/
theorem depthFrom_nonneg_of_sealed {q : Char} (hq : q ≠ '\\') {body : Text} (h : Sealed q body)
    {r p : Text} (hr : ∀ p, p <+: r → 0 ≤ depth quotes p) (hp : p <+: body ++ q :: r) :
    0 ≤ depthFrom quotes (.inside q) p := by
  induction h generalizing p with
  | nil =>
    rcases List.prefix_cons_iff.mp hp with rfl | ⟨u, rfl, hu⟩
    · exact Int.le_refl 0
    · rw [depthFrom_inside_quote hq]
      exact hr u hu
  | plain hescape hquote _ ih =>
    rcases List.prefix_cons_iff.mp hp with rfl | ⟨u, rfl, hu⟩
    · exact Int.le_refl 0
    · rw [depthFrom_inside_plain hescape hquote]
      exact ih hu
  | escaped _ ih =>
    rcases List.prefix_cons_iff.mp hp with rfl | ⟨u, rfl, hu⟩
    · exact Int.le_refl 0
    rcases List.prefix_cons_iff.mp hu with rfl | ⟨w, rfl, hw⟩
    · exact Int.le_refl 0
    · rw [depthFrom_inside_escaped]
      exact ih hw

/-- **In nested text no bracket is closed that was not opened.** -/
theorem Nested.depth_nonneg (hquotes : AreQuotes quotes) {s p : Text} (h : Nested quotes s)
    (hp : p <+: s) : 0 ≤ depth quotes p := by
  induction h generalizing p with
  | nil =>
    rw [List.prefix_nil.mp hp]
    exact Int.le_refl 0
  | plain hc _ ih =>
    rcases List.prefix_cons_iff.mp hp with rfl | ⟨u, rfl, hu⟩
    · exact Int.le_refl 0
    · rw [depth_plain hc]
      exact ih hu
  | @literal q body s hq hbody _ ih =>
    rcases List.prefix_cons_iff.mp hp with rfl | ⟨u, rfl, hu⟩
    · exact Int.le_refl 0
    · rw [depth_quote hquotes hq]
      exact depthFrom_nonneg_of_sealed (ne_backslash (hquotes q hq)) hbody (fun _ hp => ih hp) hu
  | @group o k inner s hk hinner _ ihinner ih =>
    rcases List.prefix_cons_iff.mp hp with rfl | ⟨u, rfl, hu⟩
    · exact Int.le_refl 0
    rw [depth_opener hquotes hk]
    -- the beginning ends inside the brackets, or behind them
    rcases List.prefix_or_prefix_of_prefix hu (List.prefix_append inner (k :: s)) with
      hinside | ⟨w, rfl⟩
    · exact Int.add_nonneg (by decide) (ihinner hinside)
    · rw [hinner.depth_append hquotes]
      rcases List.prefix_cons_iff.mp ((List.prefix_append_right_inj inner).mp hu) with
        rfl | ⟨v, rfl, hv⟩
      · exact Int.le_of_lt Int.one_pos
      · rw [depth_closer hquotes hk, Int.add_neg_cancel_left]
        exact ih hv

/-! ## Spans -/

/-- `IsSpan quotes s`: the text `s` starts with an opening bracket, its brackets are nested and
matched in kind, and its end is the first place at which none of them is open. -/
structure IsSpan (quotes : List Char) (s : Text) : Prop where
  /-- It starts with an opening bracket. -/
  opens : ∃ c r, s = c :: r ∧ isOpener c = true
  /-- Its brackets are nested and matched in kind. -/
  nested : Nested quotes s
  /-- At its end no bracket is open. -/
  closes : depth quotes s = 0
  /-- Before its end some bracket is open. -/
  first : ∀ p, p <+: s → p ≠ [] → p ≠ s → 0 < depth quotes p

/-- **A span is nested text between an opening bracket and its closer.** -/
theorem isSpan_iff (hquotes : AreQuotes quotes) {s : Text} :
    IsSpan quotes s ↔
      ∃ o k inner, closerOf? o = some k ∧ Nested quotes inner ∧ s = o :: (inner ++ [k]) := by
  constructor
  · rintro ⟨⟨c, r, rfl, hc⟩, hnested, -, hfirst⟩
    cases hnested with
    | plain hplain _ =>
      rw [isOpener, (code_of_isPlain hplain).1] at hc
      cases hc
    | literal hq _ _ =>
      rw [isOpener, (code_of_mem_quotes hquotes hq).1] at hc
      cases hc
    | @group _ k inner r hk hinner hr =>
      -- behind the closer of the first bracket the depth is zero, so the span ends there
      have hdepth : depth quotes (c :: (inner ++ [k])) = 0 := by
        rw [depth_opener hquotes hk, hinner.depth_append hquotes, depth_closer hquotes hk]
        rfl
      cases r with
      | nil => exact ⟨c, k, inner, hk, hinner, rfl⟩
      | cons d r =>
        have hpositive := hfirst (c :: (inner ++ [k])) ⟨d :: r, by simp⟩ (List.cons_ne_nil _ _)
          (by simp)
        omega
  · rintro ⟨o, k, inner, hk, hinner, rfl⟩
    have hopener : isOpener o = true := by rw [isOpener, hk, Option.isSome_some]
    refine ⟨⟨o, _, rfl, hopener⟩, .group hk hinner .nil, ?_, ?_⟩
    · rw [depth_opener hquotes hk, hinner.depth_append hquotes, depth_closer hquotes hk]
      rfl
    · intro p hp hne hnot
      rcases List.prefix_cons_iff.mp hp with rfl | ⟨u, rfl, hu⟩
      · exact absurd rfl hne
      rcases List.prefix_concat_iff.mp hu with rfl | hinside
      · exact absurd rfl hnot
      · have := hinner.depth_nonneg hquotes hinside
        rw [depth_opener hquotes hk]
        omega

/-! ## The search for the end of a span -/

/-- Behind an opening bracket its closing one is due. -/
theorem closingAt?_opener {o k : Char} (h : closerOf? o = some k) (cs : List Char) (r : Text) :
    closingAt? quotes .code cs (o :: r) = (closingAt? quotes .code (k :: cs) r).map (· + 1) := by
  simp only [closingAt?, h]

/-- The bracket that is due closes, and the last one ends the search. -/
theorem closingAt?_closer {o k : Char} (h : closerOf? o = some k) (cs : List Char) (r : Text) :
    closingAt? quotes .code (k :: cs) (k :: r) =
      if cs.isEmpty then some 1 else (closingAt? quotes .code cs r).map (· + 1) := by
  obtain ⟨hopener, hcloser⟩ := closer_of_closerOf? h
  simp only [closingAt?, hopener, hcloser, if_true, ne_eq, not_true_eq_false, if_false]

/-- A character that is no bracket is passed. -/
theorem closingAt?_other {c : Char} (hopener : closerOf? c = none) (hcloser : isCloser c = false)
    (cs : List Char) (r : Text) :
    closingAt? quotes .code cs (c :: r) =
      (closingAt? quotes (Place.next quotes .code c) cs r).map (· + 1) := by
  simp only [closingAt?, hopener, hcloser, Bool.false_eq_true, if_false]

/-- The rest of a literal is passed over, with the quote behind it. -/
theorem closingAt?_sealed {q : Char} (hq : q ≠ '\\') {body : Text} (h : Sealed q body)
    {cs : List Char} {r : Text} {n : Nat} (hr : closingAt? quotes .code cs r = some n) :
    closingAt? quotes (.inside q) cs (body ++ q :: r) = some (body.length + 1 + n) := by
  induction h with
  | nil =>
    have hnext : Place.next quotes (.inside q) q = .code := by
      rw [Place.next, if_neg hq, if_pos rfl]
    simp only [List.nil_append, closingAt?, hnext, hr, Option.map_some, List.length_nil]
    congr 1
    omega
  | @plain c w hescape hquote _ ih =>
    have hnext : Place.next quotes (.inside q) c = .inside q := by
      rw [Place.next, if_neg hescape, if_neg hquote]
    simp only [List.cons_append, closingAt?, hnext, ih, Option.map_some, List.length_cons]
    congr 1
    omega
  | @escaped c w _ ih =>
    have hnext : closingAt? quotes (.inside q) cs ('\\' :: c :: w ++ q :: r) =
        ((closingAt? quotes (.inside q) cs (w ++ q :: r)).map (· + 1)).map (· + 1) := rfl
    rw [hnext, ih, Option.map_some, Option.map_some, List.length_cons, List.length_cons]
    congr 1
    omega

/-- **Inside a bracket nested text is passed over.** -/
theorem closingAt?_nested (hquotes : AreQuotes quotes) {w : Text} (h : Nested quotes w) {k : Char}
    {cs : List Char} {r : Text} {n : Nat} (hr : closingAt? quotes .code (k :: cs) r = some n) :
    closingAt? quotes .code (k :: cs) (w ++ r) = some (w.length + n) := by
  induction h generalizing k cs r n with
  | nil => rw [List.nil_append, hr, List.length_nil, Nat.zero_add]
  | plain hc _ ih =>
    obtain ⟨hopener, hcloser, hnext⟩ := code_of_isPlain hc
    rw [List.cons_append, closingAt?_other hopener hcloser, hnext, ih hr, Option.map_some,
      List.length_cons]
    congr 1
    omega
  | @literal q body w hq hbody _ ih =>
    obtain ⟨hopener, hcloser, hnext⟩ := code_of_mem_quotes hquotes hq
    have hpast := closingAt?_sealed (ne_backslash (hquotes q hq)) hbody (ih hr)
    rw [List.cons_append, List.append_assoc, List.cons_append, closingAt?_other hopener hcloser,
      hnext, hpast, Option.map_some]
    simp only [List.length_cons, List.length_append]
    congr 1
    omega
  | @group o k' inner w hk _ _ ihinner ih =>
    have hclosed : closingAt? quotes .code (k' :: k :: cs) (k' :: (w ++ r)) =
        some (w.length + n + 1) := by
      rw [closingAt?_closer hk, List.isEmpty_cons, if_neg Bool.false_ne_true, ih hr,
        Option.map_some]
    rw [List.cons_append, List.append_assoc, List.cons_append, closingAt?_opener hk,
      ihinner hclosed, Option.map_some]
    simp only [List.length_cons, List.length_append]
    congr 1
    omega

/-- `Closed quotes cs w`: the text `w` closes the brackets that wait for the closers `cs`, one after
the other, with nested text before each closer. -/
def Closed (quotes : List Char) : List Char → Text → Prop
  | [], w => w = []
  | k :: cs, w => ∃ inner r, Nested quotes inner ∧ w = inner ++ k :: r ∧ Closed quotes cs r

/-- Nested text in front changes nothing. -/
theorem Closed.append {k : Char} {cs : List Char} {s w : Text} (hs : Nested quotes s)
    (hw : Closed quotes (k :: cs) w) : Closed quotes (k :: cs) (s ++ w) := by
  obtain ⟨inner, r, hinner, rfl, hr⟩ := hw
  exact ⟨s ++ inner, r, hs.append hinner, (List.append_assoc s inner _).symm, hr⟩

/-- A bracket in front is closed first. -/
theorem Closed.opener {o k k' : Char} {cs : List Char} {w : Text} (hk : closerOf? o = some k)
    (hw : Closed quotes (k :: k' :: cs) w) : Closed quotes (k' :: cs) (o :: w) := by
  obtain ⟨inner, r, hinner, rfl, hr⟩ := hw
  have hgroup : Nested quotes (o :: (inner ++ [k])) := .group hk hinner .nil
  have := Closed.append hgroup hr
  rwa [List.cons_append, List.append_assoc, List.singleton_append] at this

/-- Where a search inside or outside a literal ends, the literal and then the brackets are
closed. -/
def ClosedFrom (quotes : List Char) : Place → List Char → Text → Prop
  | .code, cs, w => Closed quotes cs w
  | .inside q, cs, w => ∃ body r, Sealed q body ∧ w = body ++ q :: r ∧ Closed quotes cs r
  | .escaped q, cs, w => ∃ c body r, Sealed q body ∧ w = c :: (body ++ q :: r) ∧ Closed quotes cs r

/-- Each closing bracket has its opening one. -/
theorem exists_opener_of_isCloser {k : Char} (h : isCloser k = true) :
    ∃ o, closerOf? o = some k := by
  rw [isCloser, Bool.or_eq_true, beq_iff_eq, beq_iff_eq] at h
  rcases h with rfl | rfl
  · exact ⟨'\x7b', rfl⟩
  · exact ⟨'[', rfl⟩

/-- One character in front, outside literals. -/
theorem Closed.cons (hquotes : AreQuotes quotes) {c k : Char} {cs : List Char} {w : Text}
    (hopener : closerOf? c = none) (hcloser : isCloser c = false)
    (h : ClosedFrom quotes (Place.next quotes .code c) (k :: cs) w) :
    Closed quotes (k :: cs) (c :: w) := by
  by_cases hq : c ∈ quotes
  · rw [(code_of_mem_quotes hquotes hq).2.2] at h
    obtain ⟨body, r, hbody, rfl, hr⟩ := h
    have hliteral : Nested quotes (c :: (body ++ [c])) := .literal hq hbody .nil
    have := Closed.append hliteral hr
    rwa [List.cons_append, List.append_assoc, List.singleton_append] at this
  · have hplain : isPlain quotes c = true := by
      simp [isPlain, isOpener, hopener, hcloser, hq]
    rw [(code_of_isPlain hplain).2.2] at h
    exact Closed.append (.plain hplain .nil) h

/-- One character in front, inside a literal. -/
theorem ClosedFrom.cons_inside {q c : Char} {cs : List Char} {w : Text}
    (h : ClosedFrom quotes (Place.next quotes (.inside q) c) cs w) :
    ClosedFrom quotes (.inside q) cs (c :: w) := by
  rw [Place.next] at h
  split at h
  · next hescape =>
    obtain ⟨d, body, r, hbody, rfl, hr⟩ := h
    exact ⟨'\\' :: d :: body, r, .escaped hbody, by rw [hescape]; rfl, hr⟩
  · next hescape =>
    split at h
    · next hquote => exact ⟨[], w, .nil, by rw [hquote]; rfl, h⟩
    · next hquote =>
      obtain ⟨body, r, hbody, rfl, hr⟩ := h
      exact ⟨c :: body, r, .plain hescape hquote hbody, rfl, hr⟩

/-- **What the search has passed over when it ends is nested between the closers that it waited
for.** -/
theorem closedFrom_of_closingAt? (hquotes : AreQuotes quotes) {place : Place} {k : Char}
    {cs : List Char} {t : Text} {n : Nat} (h : closingAt? quotes place (k :: cs) t = some n) :
    ClosedFrom quotes place (k :: cs) (t.take n) := by
  induction t generalizing place k cs n with
  | nil => cases place <;> cases h
  | cons c t ih =>
    have hnext {place' : Place} {k' : Char} {cs' : List Char}
        (hmap : (closingAt? quotes place' (k' :: cs') t).map (· + 1) = some n) :
        ∃ w, (c :: t).take n = c :: w ∧ ClosedFrom quotes place' (k' :: cs') w := by
      obtain ⟨m, hm, rfl⟩ := Option.map_eq_some_iff.mp hmap
      exact ⟨t.take m, List.take_succ_cons, ih hm⟩
    cases place with
    | code =>
      cases hopener : closerOf? c with
      | some k' =>
        rw [closingAt?_opener hopener] at h
        obtain ⟨w, hw, hclosed⟩ := hnext h
        rw [hw]
        exact Closed.opener hopener hclosed
      | none =>
        cases hcloser : isCloser c with
        | false =>
          rw [closingAt?_other hopener hcloser] at h
          obtain ⟨w, hw, hclosed⟩ := hnext h
          rw [hw]
          exact Closed.cons hquotes hopener hcloser hclosed
        | true =>
          by_cases hk : k = c
          · subst hk
            obtain ⟨o, ho⟩ := exists_opener_of_isCloser hcloser
            rw [closingAt?_closer ho] at h
            cases cs with
            | nil =>
              obtain rfl : 1 = n := Option.some.inj h
              exact ⟨[], [], .nil, rfl, rfl⟩
            | cons k' cs =>
              obtain ⟨w, hw, hclosed⟩ := hnext h
              rw [hw]
              exact ⟨[], w, .nil, rfl, hclosed⟩
          · simp [closingAt?, hopener, hcloser, hk] at h
    | inside q =>
      obtain ⟨w, hw, hclosed⟩ := hnext h
      rw [hw]
      exact hclosed.cons_inside
    | escaped q =>
      obtain ⟨w, hw, body, r, hbody, rfl, hr⟩ := hnext h
      rw [hw]
      exact ⟨c, body, r, hbody, rfl, hr⟩

/-- **What the search finds from an opening bracket is a span.** -/
theorem isSpan_of_spanLength? (hquotes : AreQuotes quotes) {c : Char} (hc : isOpener c = true)
    {r : Text} {n : Nat} (h : spanLength? quotes (c :: r) = some n) :
    IsSpan quotes ((c :: r).take n) := by
  obtain ⟨k, hk⟩ := Option.isSome_iff_exists.mp hc
  rw [spanLength?, closingAt?_opener hk] at h
  obtain ⟨m, hm, rfl⟩ := Option.map_eq_some_iff.mp h
  obtain ⟨inner, w, hinner, htake, rfl⟩ := closedFrom_of_closingAt? hquotes hm
  exact (isSpan_iff hquotes).mpr ⟨c, k, inner, hk, hinner, by rw [List.take_succ_cons, htake]⟩

/-- **The search finds a span, whatever stands behind it.** -/
theorem spanLength?_of_isSpan (hquotes : AreQuotes quotes) {s : Text} (hs : IsSpan quotes s)
    (r : Text) :
    spanLength? quotes (s ++ r) = some s.length := by
  obtain ⟨o, k, inner, hk, hinner, rfl⟩ := (isSpan_iff hquotes).mp hs
  have hclosed : closingAt? quotes .code [k] (k :: r) = some 1 := closingAt?_closer hk [] r
  rw [spanLength?, List.cons_append, List.append_assoc, List.singleton_append, closingAt?_opener hk,
    closingAt?_nested hquotes hinner hclosed, Option.map_some, List.length_cons, List.length_append]
  rfl

/-! ## The spans of a text -/

/-- Where a span starts, it is the next span, and the search goes on behind it. -/
theorem spans_append (hquotes : AreQuotes quotes) {s : Text} (hs : IsSpan quotes s) (r : Text) :
    spans quotes (s ++ r) = s :: spans quotes r := by
  have hlength := spanLength?_of_isSpan hquotes hs r
  obtain ⟨c, w, rfl, hc⟩ := hs.opens
  have htake : (c :: (w ++ r)).take (c :: w).length = c :: w := List.take_left
  rw [List.cons_append] at hlength ⊢
  rw [spans, spansFrom, if_pos hc, hlength]
  simp only
  rw [htake, List.length_cons, Nat.add_sub_cancel, spansFrom_length]
  rfl

/-- Where no span starts, the search goes on with the next character. -/
theorem spans_cons (hquotes : AreQuotes quotes) {c : Char} {r : Text}
    (h : ∀ s, s <+: c :: r → ¬ IsSpan quotes s) : spans quotes (c :: r) = spans quotes r := by
  rw [spans, spansFrom]
  split
  · next hc =>
    cases hlength : spanLength? quotes (c :: r) with
    | none => rfl
    | some n => exact absurd (isSpan_of_spanLength? hquotes hc hlength) (h _ (List.take_prefix n _))
  · rfl

/-- Induction along a text, span by span. -/
theorem spans_induction (quotes : List Char) {P : Text → Prop} (nil : P [])
    (char : ∀ c r, (∀ s, s <+: c :: r → ¬ IsSpan quotes s) → P r → P (c :: r))
    (span : ∀ s r, IsSpan quotes s → P r → P (s ++ r)) (t : Text) : P t := by
  induction hn : t.length using Nat.strongRecOn generalizing t with
  | ind n ih =>
    subst hn
    by_cases hspan : ∃ s, s <+: t ∧ IsSpan quotes s
    · obtain ⟨s, ⟨r, rfl⟩, hs⟩ := hspan
      obtain ⟨c, w, rfl, -⟩ := hs.opens
      refine span _ r hs (ih r.length ?_ r rfl)
      rw [List.length_append, List.length_cons]
      omega
    · cases t with
      | nil => exact nil
      | cons c r =>
        exact char c r (fun s hs hspan' => hspan ⟨s, hs, hspan'⟩)
          (ih r.length (Nat.lt_succ_self _) r rfl)

/-- A part of a text, by where it starts and how long it is. -/
structure Slice where
  /-- How many characters stand before it. -/
  start : Nat
  /-- How many characters it has. -/
  length : Nat

namespace Slice

/-- The characters of a slice. -/
def text (t : Text) (a : Slice) : Text := (t.drop a.start).take a.length

/-- The place behind a slice. -/
def stop (a : Slice) : Nat := a.start + a.length

/-- Whether a slice has the character behind a number of others. -/
def Covers (a : Slice) (i : Nat) : Prop := a.start ≤ i ∧ i < a.stop

/-- A slice with more text in front. -/
def shift (n : Nat) (a : Slice) : Slice := ⟨n + a.start, a.length⟩

/-- A slice that is moved ends later by as much. -/
theorem stop_shift (n : Nat) (a : Slice) : (a.shift n).stop = n + a.stop :=
  Nat.add_assoc n a.start a.length

/-- A slice that is moved behind a text has the same text. -/
theorem text_shift (s t : Text) (a : Slice) : (a.shift s.length).text (s ++ t) = a.text t := by
  rw [text, shift, List.drop_length_add_append, text]

/-- A slice that is moved covers the moved places. -/
theorem covers_shift {n i : Nat} {a : Slice} (h : a.Covers i) : (a.shift n).Covers (n + i) := by
  obtain ⟨hstart, hstop⟩ := h
  refine ⟨Nat.add_le_add_left hstart n, ?_⟩
  rw [stop_shift]
  exact Nat.add_lt_add_left hstop n

end Slice

/-- `IsListing quotes t slices`: the slices of the text `t` are spans, one behind the other, and no
span starts outside of them. -/
structure IsListing (quotes : List Char) (t : Text) (slices : List Slice) : Prop where
  /-- Each of them ends before the next ones start. -/
  ordered : slices.Pairwise fun a b => a.stop ≤ b.start
  /-- All of them lie in the text. -/
  within : ∀ a ∈ slices, a.stop ≤ t.length
  /-- All of them are spans. -/
  spans : ∀ a ∈ slices, IsSpan quotes (a.text t)
  /-- Outside of them no span starts. -/
  complete : ∀ i, (∀ a ∈ slices, ¬ a.Covers i) → ∀ s, s <+: t.drop i → ¬ IsSpan quotes s

/-- Slices of a text in front are listed first. -/
theorem IsListing.append {r : Text} {slices : List Slice} (h : IsListing quotes r slices) {s : Text}
    (front : List Slice) (hordered : front.Pairwise fun a b => a.stop ≤ b.start)
    (hwithin : ∀ a ∈ front, a.stop ≤ s.length)
    (hspans : ∀ a ∈ front, IsSpan quotes (a.text (s ++ r)))
    (hcomplete : ∀ i < s.length, (∀ a ∈ front, ¬ a.Covers i) →
      ∀ u, u <+: (s ++ r).drop i → ¬ IsSpan quotes u) :
    IsListing quotes (s ++ r) (front ++ slices.map (Slice.shift s.length)) where
  ordered := by
    refine List.pairwise_append.mpr ⟨hordered, List.pairwise_map.mpr ?_, ?_⟩
    · refine h.ordered.imp fun hab => ?_
      rw [Slice.stop_shift]
      exact Nat.add_le_add_left hab s.length
    · intro a ha b hb
      obtain ⟨b, -, rfl⟩ := List.mem_map.mp hb
      exact Nat.le_trans (hwithin a ha) (Nat.le_add_right _ _)
  within := by
    intro a ha
    rw [List.length_append]
    rcases List.mem_append.mp ha with ha | ha
    · exact Nat.le_trans (hwithin a ha) (Nat.le_add_right _ _)
    · obtain ⟨b, hb, rfl⟩ := List.mem_map.mp ha
      rw [Slice.stop_shift]
      exact Nat.add_le_add_left (h.within b hb) _
  spans := by
    intro a ha
    rcases List.mem_append.mp ha with ha | ha
    · exact hspans a ha
    · obtain ⟨b, hb, rfl⟩ := List.mem_map.mp ha
      rw [Slice.text_shift]
      exact h.spans b hb
  complete := by
    intro i hi
    by_cases hfront : i < s.length
    · exact hcomplete i hfront fun a ha => hi a (List.mem_append_left _ ha)
    · obtain ⟨j, rfl⟩ := Nat.exists_eq_add_of_le (Nat.le_of_not_lt hfront)
      rw [List.drop_length_add_append]
      exact h.complete j fun a ha hcovers =>
        hi _ (List.mem_append_right _ (List.mem_map_of_mem ha)) (Slice.covers_shift hcovers)

/-- **The spans of a text lie one behind the other, each from an opening bracket up to where the
depth is zero for the first time, and outside of them no span starts.** -/
theorem exists_isListing_spans (hquotes : AreQuotes quotes) (t : Text) :
    ∃ slices, spans quotes t = slices.map (Slice.text t) ∧ IsListing quotes t slices := by
  induction t using spans_induction quotes with
  | nil =>
    refine ⟨[], rfl, .nil, fun _ ha => absurd ha List.not_mem_nil,
      fun _ ha => absurd ha List.not_mem_nil, ?_⟩
    intro i _ s hs hspan
    rw [List.drop_nil, List.prefix_nil] at hs
    obtain ⟨c, r, hcons, -⟩ := hspan.opens
    rw [hs] at hcons
    cases hcons
  | char c r hnone ih =>
    obtain ⟨slices, hmap, hlisting⟩ := ih
    refine ⟨slices.map (Slice.shift 1), ?_, hlisting.append (s := [c]) [] .nil ?_ ?_ ?_⟩
    · rw [spans_cons hquotes hnone, hmap, List.map_map]
      exact List.map_congr_left fun a _ => (Slice.text_shift [c] r a).symm
    · exact fun _ ha => absurd ha List.not_mem_nil
    · exact fun _ ha => absurd ha List.not_mem_nil
    · intro i hi _ u hu
      obtain rfl : i = 0 := Nat.lt_one_iff.mp hi
      exact hnone u hu
  | span s r hs ih =>
    obtain ⟨slices, hmap, hlisting⟩ := ih
    have htext : Slice.text (s ++ r) ⟨0, s.length⟩ = s := List.take_left
    refine ⟨[⟨0, s.length⟩] ++ slices.map (Slice.shift s.length), ?_, hlisting.append _ ?_ ?_ ?_ ?_⟩
    · rw [spans_append hquotes hs, hmap, List.singleton_append, List.map_cons, htext, List.map_map]
      congr 1
      exact List.map_congr_left fun a _ => (Slice.text_shift s r a).symm
    · exact List.pairwise_singleton _ _
    · intro a ha
      obtain rfl := List.mem_singleton.mp ha
      exact Nat.le_of_eq (Nat.zero_add s.length)
    · intro a ha
      rw [List.mem_singleton.mp ha, htext]
      exact hs
    · intro i hi hfree
      refine absurd ⟨Nat.zero_le i, ?_⟩ (hfree _ List.mem_cons_self)
      rw [Slice.stop, Nat.zero_add]
      exact hi

/-- A text with a closer that nothing opened, a bracket that nothing closes and brackets in
literals. -/
def stray : Text := "x] \x7b'a': '\x7d'\x7d [(\"[\" [1] ".toList

/-- The brackets that nothing closes are passed over, and so is what stands in literals. -/
theorem exists_isListing_spans_stray :
    AreQuotes looseQuotes ∧ spans looseQuotes stray = ["\x7b'a': '\x7d'\x7d".toList, "[1]".toList] ∧
      ∃ slices, spans looseQuotes stray = slices.map (Slice.text stray) ∧
        IsListing looseQuotes stray slices :=
  ⟨areQuotes_loose, by decide +kernel, exists_isListing_spans areQuotes_loose stray⟩

end ShapedReply.Bracket
