import ShapedReply.Loose.Bracket
import ShapedReply.Proofs.Mending.Strict

/-!
# The outline of strict text

An outline is taken character by character. Here it is taken token by token: code between brackets
and commas only counts characters, a literal does too, an opening bracket adds a closer and a cut, a
closing bracket takes its closer away, and a comma adds a cut.

* `passes_text`: **behind a strict tree the outline stands in code with the closers it had before**,
  so a strict text leaves nothing open (`closers_strict`).
* `closers_of_closingAt`: where the search for the end of a bracketed span ends, the outline has no
  closers left. So a text that has something open all along has no span at its start.
-/

namespace ShapedReply

open Text Reader Spelling

namespace Outline

/-- An outline after more text. -/
def after (o : Outline) (t : Text) : Outline :=
  t.foldl step o

/-- A text is gone over part by part. -/
theorem after_append (o : Outline) (s t : Text) : o.after (s ++ t) = (o.after s).after t :=
  List.foldl_append

/-- The outline of a text goes on behind its first part. -/
theorem ofText_append (s t : Text) : ofText (s ++ t) = (ofText s).after t :=
  after_append {} s t

variable {cs : List Char} {n : Nat} {cuts : List Nat}

/-! ## Token by token -/

/-- Whether a character of code is neither a quote nor a bracket nor a comma. -/
def isInert (c : Char) : Bool :=
  !(['"', '{', '}', '[', ']', ','].contains c)

/-- Blanks of strict text change nothing in code. -/
theorem isInert_of_isValueBlank {c : Char} (h : isValueBlank c = true) : isInert c = true := by
  rcases eq_of_isValueBlank h with rfl | rfl | rfl | rfl <;> rfl

/-- Such a character opens and closes nothing. -/
theorem code_of_isInert {c : Char} (hc : isInert c = true) : Bracket.closerOf? c = none ∧
    Bracket.isCloser c = false ∧ c ≠ ',' ∧ Place.next strictQuotes .code c = .code := by
  simp only [isInert, Bool.not_eq_true', List.contains_eq_mem, List.mem_cons, List.not_mem_nil,
    or_false, decide_eq_false_iff_not, not_or] at hc
  obtain ⟨hquote, hbrace, hbrace', hbracket, hbracket', hcomma⟩ := hc
  have hcloser : Bracket.closerOf? c = none := by
    unfold Bracket.closerOf?
    split
    · exact absurd rfl hbrace
    · exact absurd rfl hbracket
    · rfl
  exact ⟨hcloser, by simp [Bracket.isCloser, hbrace', hbracket'], hcomma,
    by simp [Place.next, strictQuotes, hquote]⟩

/-- A character that changes nothing is counted. -/
theorem step_inert {c : Char} (hc : isInert c = true) :
    step ⟨cs, .code, n, cuts⟩ c = ⟨cs, .code, n + 1, cuts⟩ := by
  obtain ⟨hopener, hcloser, hcomma, hnext⟩ := code_of_isInert hc
  simp [step, hopener, hcloser, hcomma, hnext]

/-- Code without quotes, brackets and commas is counted. -/
theorem after_inert {w : Text} (hw : ∀ c ∈ w, isInert c = true) :
    after ⟨cs, .code, n, cuts⟩ w = ⟨cs, .code, n + w.length, cuts⟩ := by
  induction w generalizing n with
  | nil => rfl
  | cons c w ih =>
    rw [List.forall_mem_cons] at hw
    show after (step _ c) w = _
    rw [step_inert hw.1, ih hw.2, List.length_cons, Nat.add_assoc, Nat.add_comm 1]

/-- Inside a literal characters are counted. -/
theorem after_sealed {w : Text} (h : Sealed '"' w) :
    after ⟨cs, .inside '"', n, cuts⟩ w = ⟨cs, .inside '"', n + w.length, cuts⟩ := by
  induction h generalizing n with
  | nil => rfl
  | @plain c r h₁ h₂ _ ih =>
    have hstep : step ⟨cs, .inside '"', n, cuts⟩ c = ⟨cs, .inside '"', n + 1, cuts⟩ := by
      simp [step, Place.next, h₁, h₂]
    show after (step _ c) r = _
    rw [hstep, ih, List.length_cons, Nat.add_assoc, Nat.add_comm 1]
  | @escaped c r _ ih =>
    have hstep : after ⟨cs, .inside '"', n, cuts⟩ ('\\' :: c :: r) =
        after ⟨cs, .inside '"', n + 2, cuts⟩ r := rfl
    rw [hstep, ih, List.length_cons, List.length_cons]
    congr 1
    omega

/-- A literal is counted. -/
theorem after_literal {body : Text} (h : Sealed '"' body) :
    after ⟨cs, .code, n, cuts⟩ ('"' :: (body ++ ['"'])) =
      ⟨cs, .code, n + ('"' :: (body ++ ['"'])).length, cuts⟩ := by
  show after ⟨cs, .inside '"', n + 1, cuts⟩ (body ++ ['"']) = _
  rw [after_append, after_sealed h]
  show (⟨cs, .code, n + 1 + body.length + 1, cuts⟩ : Outline) = _
  congr 1
  simp
  omega

/-- An opening bracket adds its closer, and a cut behind it. -/
theorem after_opener (k : Container) :
    after ⟨cs, .code, n, cuts⟩ [k.opener] = ⟨k.closer :: cs, .code, n + 1, (n + 1) :: cuts⟩ := by
  cases k <;> rfl

/-- A closing bracket takes its closer away. -/
theorem after_closer (k : Container) :
    after ⟨k.closer :: cs, .code, n, cuts⟩ [k.closer] = ⟨cs, .code, n + 1, cuts⟩ := by
  cases k <;> rfl

/-- A comma adds a cut before it. -/
theorem after_comma : after ⟨cs, .code, n, cuts⟩ [','] = ⟨cs, .code, n + 1, n :: cuts⟩ := rfl

/-! ## Trees -/

/-- `Counts t`: the outline passes over `t` in code and only counts its characters. -/
def Counts (t : Text) : Prop :=
  ∀ cs n cuts, after ⟨cs, .code, n, cuts⟩ t = ⟨cs, .code, n + t.length, cuts⟩

/-- `Passes cs cs' t`: in code the text `t` takes the outline from the closers `cs` to the closers
`cs'`. -/
def Passes (cs cs' : List Char) (t : Text) : Prop :=
  ∀ n cuts, ∃ cuts', after ⟨cs, .code, n, cuts⟩ t = ⟨cs', .code, n + t.length, cuts'⟩

/-- Texts that are only counted are counted together. -/
theorem Counts.append {s t : Text} (hs : Counts s) (ht : Counts t) : Counts (s ++ t) := by
  intro cs n cuts
  rw [after_append, hs, ht, List.length_append, Nat.add_assoc]

/-- A text that is only counted leaves the open brackets as they are. -/
theorem Counts.passes {t : Text} (h : Counts t) (cs : List Char) : Passes cs cs t :=
  fun n cuts => ⟨cuts, h cs n cuts⟩

/-- A text leads from where the text before it leads to. -/
theorem Passes.append {cs₁ cs₂ cs₃ : List Char} {s t : Text} (hs : Passes cs₁ cs₂ s)
    (ht : Passes cs₂ cs₃ t) : Passes cs₁ cs₃ (s ++ t) := by
  intro n cuts
  obtain ⟨cuts₁, h₁⟩ := hs n cuts
  obtain ⟨cuts₂, h₂⟩ := ht (n + s.length) cuts₁
  refine ⟨cuts₂, ?_⟩
  rw [after_append, h₁, h₂, List.length_append, Nat.add_assoc]

/-- An opening bracket opens. -/
theorem passes_opener (k : Container) (cs : List Char) : Passes cs (k.closer :: cs) [k.opener] :=
  fun n cuts => ⟨(n + 1) :: cuts, after_opener k⟩

/-- The bracket that is due closes. -/
theorem passes_closer (k : Container) (cs : List Char) : Passes (k.closer :: cs) cs [k.closer] :=
  fun _ cuts => ⟨cuts, after_closer k⟩

/-- A comma leaves the open brackets as they are. -/
theorem passes_comma (cs : List Char) : Passes cs cs [','] :=
  fun n cuts => ⟨n :: cuts, after_comma⟩

/-- Blanks of strict text are only counted. -/
theorem counts_blanks {g : Text} (hg : ∀ c ∈ g, isValueBlank c = true) : Counts g := by
  intro cs n cuts
  apply after_inert
  exact fun c hc => isInert_of_isValueBlank (hg c hc)

/-- A string in quotes is only counted, whatever brackets it has. -/
theorem counts_literal {body : Text} (h : Sealed '"' body) : Counts ('"' :: (body ++ ['"'])) :=
  fun _ _ _ => after_literal h

/-- Numbers and names are only counted. -/
theorem counts_word (w : Word) : Counts w.text := by
  have hparts : ∀ c ∈ wordParts, isInert c = true := by decide
  exact fun _ _ _ => after_inert fun c hc => hparts c (mem_wordParts w c hc)

/-- What stands before the item of an entry is only counted. -/
theorem counts_head {k : Container} (head : Head k) : Counts (head.text .strict) := by
  cases head with
  | item before => exact counts_blanks before.blank
  | member before key beforeColon afterColon =>
    have hcolon : Counts [':'] := fun _ _ _ => after_inert (by decide)
    rw [Head.text_strict_member]
    exact (counts_blanks before.blank).append <|
      (counts_literal (sealed_strictBody key.quoted)).append <|
      (counts_blanks beforeColon.blank).append (hcolon.append (counts_blanks afterColon.blank))

mutual

/-- **Behind a strict tree the outline stands in code with the closers it had before.** -/
theorem passes_text (cs : List Char) : (T : Tree) → Passes cs cs (T.text .strict)
  | .word w => by
    rw [Tree.text]
    exact (counts_word w).passes cs
  | .string s => by
    rw [Tree.text]
    exact (counts_literal (sealed_strictBody s)).passes cs
  | .empty k inside => by
    rw [Tree.text]
    exact (passes_opener k cs).append <|
      ((counts_blanks inside.blank).passes _).append (passes_closer k cs)
  | .filled k es => by
    rw [Tree.text]
    exact (passes_opener k cs).append (passes_entries cs es)

/-- Behind the entries of a container its closer is gone. -/
theorem passes_entries (cs : List Char) {k : Container} :
    (es : Entries k) → Passes (k.closer :: cs) cs (es.text .strict)
  | .last head item gap trailing => by
    rw [Entries.text_strict_last]
    exact ((counts_head head).passes _).append <| (passes_text _ item).append <|
      ((counts_blanks gap.blank).passes _).append (passes_closer k cs)
  | .more head item gap rest => by
    rw [Entries.text_strict_more]
    exact ((counts_head head).passes _).append <| (passes_text _ item).append <|
      ((counts_blanks gap.blank).passes _).append <|
        (passes_comma _).append (passes_entries cs rest)

end

/-- A strict text leaves nothing open. -/
theorem closers_strict (d : Document) : (ofText d.strict).closers = [] := by
  have hpasses : Passes [] [] (d.before.strict ++ (d.root.text .strict ++ d.after.strict)) :=
    ((counts_blanks d.before.blank).passes _).append <| (passes_text _ d.root).append <|
      (counts_blanks d.after.blank).passes _
  obtain ⟨cuts, h⟩ := hpasses 0 []
  have hofText : ofText d.strict =
      after ⟨[], .code, 0, []⟩ (d.before.strict ++ (d.root.text .strict ++ d.after.strict)) := by
    rw [Document.strict, List.append_assoc]
    rfl
  rw [hofText, h]

/-! ## Where the outline stands -/

variable {o o' : Outline}

/-- Code leads to code. -/
theorem place_after_code {w : Text} (hw : ∀ c ∈ w, isCode c = true) (ho : o.place = .code) :
    (o.after w).place = .code := by
  induction w generalizing o with
  | nil => exact ho
  | cons c w ih =>
    rw [List.forall_mem_cons] at hw
    refine ih hw.2 ?_
    have hnext : Place.next strictQuotes .code c = .code := by
      have hquote : c ≠ '"' := by
        rintro rfl
        exact absurd hw.1 (by decide)
      simp [Place.next, strictQuotes, hquote]
    unfold step
    rw [ho]
    simp only [hnext]
    split
    · rfl
    · split
      · split <;> rfl
      · split <;> rfl

/-- An outline behind a literal and more text. -/
theorem after_past_literal (o : Outline) (body r : Text) :
    o.after ('"' :: (body ++ '"' :: r)) = (o.after ('"' :: (body ++ ['"']))).after r := by
  rw [← after_append]
  simp

/-- A literal leads to code. -/
theorem place_after_literal {body : Text} (h : Sealed '"' body) (ho : o.place = .code) :
    (o.after ('"' :: (body ++ ['"']))).place = .code := by
  obtain ⟨cs, place, n, cuts⟩ := o
  cases ho
  rw [after_literal h]

/-- A literal that is left open does not. -/
theorem place_after_unclosed {w : Text} (h : Unclosed '"' w) (ho : o.place = .code) :
    (o.after ('"' :: w)).place ≠ .code := by
  obtain ⟨cs, place, n, cuts⟩ := o
  cases ho
  show (after ⟨cs, .inside '"', n + 1, cuts⟩ w).place ≠ .code
  rcases h with h | ⟨v, h, rfl⟩
  · rw [after_sealed h]
    simp
  · rw [after_append, after_sealed h]
    show Place.escaped '"' ≠ .code
    simp

/-- Two outlines with the same brackets open that stand in the same place. -/
def SameOpen (o o' : Outline) : Prop := o.closers = o'.closers ∧ o.place = o'.place

/-- Outlines with the same open brackets have the same ones after a character. -/
theorem SameOpen.step (h : SameOpen o o') (c : Char) : SameOpen (o.step c) (o'.step c) := by
  obtain ⟨cs, place, n, cuts⟩ := o
  obtain ⟨cs', place', n', cuts'⟩ := o'
  obtain ⟨hclosers, hplace⟩ := h
  cases hclosers
  cases hplace
  unfold Outline.step SameOpen
  cases place with
  | code =>
    simp only
    split
    · exact ⟨rfl, rfl⟩
    · split
      · split <;> exact ⟨rfl, rfl⟩
      · split <;> exact ⟨rfl, rfl⟩
  | inside q => exact ⟨rfl, rfl⟩
  | escaped q => exact ⟨rfl, rfl⟩

/-- Outlines with the same open brackets have the same ones after a text. -/
theorem SameOpen.after (h : SameOpen o o') (t : Text) : SameOpen (o.after t) (o'.after t) := by
  induction t generalizing o o' with
  | nil => exact h
  | cons c t ih => exact ih (h.step c)

/-- A comma in code opens and closes nothing. -/
theorem SameOpen.comma (h : SameOpen o o') (ho : o.place = .code) : SameOpen o (o'.step ',') := by
  obtain ⟨cs, place, n, cuts⟩ := o'
  obtain ⟨hclosers, hplace⟩ := h
  cases hplace.symm.trans ho
  exact ⟨hclosers, hplace⟩

/-- **Dropping commas changes nothing about what is open.** -/
theorem SameOpen.dropTrailingCommas {w : Text} (hw : Scanned (fun _ => True) (fun q _ => q = '"') w)
    (h : SameOpen o o') (ho : o.place = .code) :
    SameOpen (o.after (Mend.dropTrailingCommas w)) (o'.after w) := by
  induction hw generalizing o o' with
  | nil => exact h
  | @code c r hc _ _ ih =>
    rw [Mend.dropTrailingCommas_cons hc]
    split
    · next hdrop =>
      rw [Bool.and_eq_true, decide_eq_true_eq] at hdrop
      obtain ⟨rfl, -⟩ := hdrop
      exact ih (h.comma ho) ho
    · exact ih (h.step c) (place_after_code (w := [c]) (by simpa using hc) ho)
  | @literal q body r hq hbody hquote _ ih =>
    cases hquote
    rw [Mend.dropTrailingCommas_literal hq hbody, after_past_literal o, after_past_literal o']
    exact ih (h.after _) (place_after_literal hbody ho)
  | unclosed hq hw _ =>
    rw [Mend.dropTrailingCommas_unclosed hq hw]
    exact h.after _

/-! ## Blanks and spans -/

/-- A blank changes no closers. -/
theorem closers_step_blank (o : Outline) {c : Char} (hc : isBlank c = true) :
    (o.step c).closers = o.closers := by
  have hcloser : Bracket.closerOf? c = none := by
    unfold Bracket.closerOf?
    split
    · exact absurd hc (by decide)
    · exact absurd hc (by decide)
    · rfl
  have hnot : Bracket.isCloser c = false := by
    rcases h : Bracket.isCloser c with _ | _
    · rfl
    · simp only [Bracket.isCloser, Bool.or_eq_true, beq_iff_eq] at h
      rcases h with rfl | rfl <;> exact absurd hc (by decide)
  unfold step
  split
  · rw [hcloser, hnot]
    simp only [Bool.false_eq_true, if_false]
    split <;> rfl
  · rfl

/-- Blanks change no closers, wherever the outline stands. -/
theorem closers_after_blanks (o : Outline) {g : Text} (hg : ∀ c ∈ g, isBlank c = true) :
    (o.after g).closers = o.closers := by
  induction g generalizing o with
  | nil => rfl
  | cons c g ih =>
    rw [List.forall_mem_cons] at hg
    show ((o.step c).after g).closers = _
    rw [ih _ hg.2, closers_step_blank o hg.1]

/-- An opening bracket is no quote. -/
theorem next_of_closerOf {c k : Char} (h : Bracket.closerOf? c = some k) :
    Place.next strictQuotes .code c = .code := by
  unfold Bracket.closerOf? at h
  split at h
  · rfl
  · rfl
  · cases h

/-- A closing bracket is no quote. -/
theorem next_of_isCloser {c : Char} (h : Bracket.isCloser c = true) :
    Place.next strictQuotes .code c = .code := by
  simp only [Bracket.isCloser, Bool.or_eq_true, beq_iff_eq] at h
  rcases h with rfl | rfl <;> rfl

/-- Where the search for the end of a bracketed span ends, the outline has no closers left. -/
theorem closers_of_closingAt {place : Place} {cs : List Char} {t : Text} {m : Nat}
    (h : Bracket.closingAt? strictQuotes place cs t = some m) (n : Nat) (cuts : List Nat) :
    0 < m ∧ m ≤ t.length ∧ (after ⟨cs, place, n, cuts⟩ (t.take m)).closers = [] := by
  induction t generalizing place cs m n cuts with
  | nil => cases place <;> cases h
  | cons c r ih =>
    -- one more character, and the search behind it
    have hnext : ∀ place' cs' cuts', step ⟨cs, place, n, cuts⟩ c = ⟨cs', place', n + 1, cuts'⟩ →
        (Bracket.closingAt? strictQuotes place' cs' r).map (· + 1) = some m →
        0 < m ∧ m ≤ (c :: r).length ∧
          (after ⟨cs, place, n, cuts⟩ ((c :: r).take m)).closers = [] := by
      intro place' cs' cuts' hstep hsearch
      obtain ⟨m', hm', rfl⟩ := Option.map_eq_some_iff.mp hsearch
      obtain ⟨-, hle, hclosers⟩ := ih hm' (n + 1) cuts'
      refine ⟨by omega, by simpa using hle, ?_⟩
      rw [List.take_succ_cons]
      show (after (step _ c) (r.take m')).closers = []
      rw [hstep, hclosers]
    cases place with
    | code =>
      simp only [Bracket.closingAt?] at h
      rcases hopener : Bracket.closerOf? c with _ | k
      · simp only [hopener] at h
        rcases hcloser : Bracket.isCloser c with _ | _
        · simp only [hcloser, Bool.false_eq_true, if_false] at h
          by_cases hcomma : c = ','
          · subst hcomma
            exact hnext _ _ (n :: cuts) rfl h
          · refine hnext _ _ cuts ?_ h
            simp [step, hopener, hcloser, hcomma]
        · simp only [hcloser, if_true] at h
          rcases cs with _ | ⟨k, cs⟩
          · cases h
          · by_cases hk : k = c
            · have hstep : step ⟨k :: cs, .code, n, cuts⟩ c = ⟨cs, .code, n + 1, cuts⟩ := by
                simp [step, hopener, hcloser, hk, next_of_isCloser hcloser]
              simp only [hk, ne_eq, not_true_eq_false, if_false] at h
              split at h
              · next hempty =>
                cases h
                refine ⟨by omega, by simp, ?_⟩
                rw [List.take_succ_cons, List.take_zero]
                show (after (step _ c) []).closers = []
                rw [hstep]
                exact List.isEmpty_iff.mp hempty
              · exact hnext _ _ cuts hstep h
            · simp only [ne_eq, hk, not_false_eq_true, if_true] at h
              cases h
      · simp only [hopener] at h
        refine hnext _ _ ((n + 1) :: cuts) ?_ h
        simp [step, hopener, next_of_closerOf hopener]
    | inside q =>
      simp only [Bracket.closingAt?] at h
      exact hnext _ _ cuts rfl h
    | escaped q =>
      simp only [Bracket.closingAt?] at h
      exact hnext _ _ cuts rfl h

end Outline

end ShapedReply
