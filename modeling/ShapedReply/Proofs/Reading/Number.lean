import ShapedReply.Value.Reader

/-!
# Reading numbers

A number literal is read from the left as far as it goes. The reader takes three parts, whole
digits, fraction and exponent, and each taker has one lemma here: what it takes off a text, and that
it takes the same off any text that goes on with something else than a part of a number.

`number_eq_ok` puts them together: **a number that is read is a literal at the start of the text**,
made of parts of numbers only, and it reads the same in front of any text that cannot go on with it.
-/

namespace ShapedReply.Reader

open Text

/-- Whether a character can stand in a number literal. -/
def isNumberPart (c : Char) : Bool :=
  Text.isAsciiDigit c || c == '-' || c == '+' || c == '.' || c == 'e' || c == 'E'

/-- A text that a number literal before it cannot go on into. -/
def StopsNumber (r : Text) : Prop :=
  ∀ c ∈ r.head?, isNumberPart c = false

/-- A number stops at the end of the text. -/
theorem stopsNumber_nil : StopsNumber [] := by simp [StopsNumber]

/-- A number stops before what is no part of one. -/
theorem stopsNumber_cons {c : Char} {r : Text} : StopsNumber (c :: r) ↔ isNumberPart c = false := by
  simp [StopsNumber]

/-- A digit is part of a number. -/
theorem isNumberPart_of_isAsciiDigit {c : Char} (h : Text.isAsciiDigit c = true) :
    isNumberPart c = true := by
  simp [isNumberPart, h]

/-- A row of characters of one class at the start of a text ends where none of the class follows. -/
theorem takeWhile_row {p : Char → Bool} (ds : Text) {r : Text} (hd : ∀ c ∈ ds, p c = true)
    (hr : ∀ c ∈ r.head?, p c = false) :
    (ds ++ r).takeWhile p = ds ∧ (ds ++ r).dropWhile p = r := by
  have hstop : r.takeWhile p = [] ∧ r.dropWhile p = r := by
    cases r with
    | nil => exact ⟨rfl, rfl⟩
    | cons c r =>
      have hc : p c = false := hr c rfl
      exact ⟨List.takeWhile_cons_of_neg (by simp [hc]), List.dropWhile_cons_of_neg (by simp [hc])⟩
  rw [List.takeWhile_append_of_pos hd, List.dropWhile_append_of_pos hd, hstop.1, hstop.2]
  exact ⟨List.append_nil ds, rfl⟩

/-- Every character that `takeWhile` takes meets its condition. -/
theorem isAsciiDigit_of_mem_takeWhile {r : Text} :
    ∀ c ∈ r.takeWhile Text.isAsciiDigit, Text.isAsciiDigit c = true := by
  intro c hc
  exact List.all_eq_true.mp List.all_takeWhile c hc

/-- Where a number stops, its digits stop. -/
theorem StopsNumber.not_isAsciiDigit {r : Text} (h : StopsNumber r) :
    ∀ c ∈ r.head?, Text.isAsciiDigit c = false := by
  intro c hc
  rcases hd : Text.isAsciiDigit c with _ | _
  · rfl
  · have := h c hc
    rw [isNumberPart_of_isAsciiDigit hd] at this
    cases this

/-- A row of digits that starts with no zero is taken off a text that does not go on with a
digit. -/
theorem takeWhole_row {c : Char} (hc : Text.isAsciiDigit c = true) (hzero : c ≠ '0') {ds : Text}
    (hds : ∀ d ∈ ds, Text.isAsciiDigit d = true) {s : Text}
    (hs : ∀ d ∈ s.head?, Text.isAsciiDigit d = false) :
    takeWhole (c :: ds ++ s) = some (c :: ds, s) := by
  obtain ⟨htake, hdrop⟩ := takeWhile_row ds hds hs
  rw [List.cons_append, takeWhole]
  · rw [if_pos hc, htake, hdrop]
  · exact hzero

/-- What `takeWhole` takes: at least one digit, and the same digits off any text that does not go on
with a digit. -/
theorem takeWhole_eq_some {t ds r : Text} (h : takeWhole t = some (ds, r)) :
    t = ds ++ r ∧ ds ≠ [] ∧ (∀ c ∈ ds, Text.isAsciiDigit c = true) ∧
      ∀ s : Text, (∀ c ∈ s.head?, Text.isAsciiDigit c = false) →
        takeWhole (ds ++ s) = some (ds, s) := by
  unfold takeWhole at h
  split at h
  · cases h
    exact ⟨rfl, by simp, by simp; rfl, fun s _ => rfl⟩
  · next c r' hzero =>
    split at h
    · next hc =>
      cases h
      have hall : ∀ d ∈ c :: r'.takeWhile Text.isAsciiDigit, Text.isAsciiDigit d = true := by
        rw [List.forall_mem_cons]
        exact ⟨hc, isAsciiDigit_of_mem_takeWhile⟩
      refine ⟨?_, by simp, hall, ?_⟩
      · rw [List.cons_append, List.takeWhile_append_dropWhile]
      · exact fun s hs => takeWhole_row hc hzero isAsciiDigit_of_mem_takeWhile hs
    · cases h
  · cases h

/-- What `takeFraction` takes: nothing, or a point with digits; and the same off any text that does
not go on with a number. -/
theorem takeFraction_eq {t ds r : Text} (h : takeFraction t = (ds, r)) :
    ∃ w, t = w ++ r ∧ (∀ c ∈ w, isNumberPart c = true) ∧
      (∀ c ∈ w.head?, Text.isAsciiDigit c = false) ∧
      ∀ s, (w = [] → ∀ c ∈ s.head?, c ≠ '.') → (∀ c ∈ s.head?, Text.isAsciiDigit c = false) →
        takeFraction (w ++ s) = (ds, s) := by
  have nothing : ∀ s : Text, (∀ c ∈ s.head?, c ≠ '.') → takeFraction s = ([], s) := by
    intro s hs
    unfold takeFraction
    split
    · exact absurd rfl (hs '.' rfl)
    · rfl
  unfold takeFraction at h
  split at h
  · next r' =>
    split at h
    · cases h
      exact ⟨[], rfl, by simp, by simp, fun s hs _ => nothing s (hs rfl)⟩
    · next hne =>
      cases h
      refine ⟨'.' :: r'.takeWhile Text.isAsciiDigit, ?_, ?_, ?_, ?_⟩
      · rw [List.cons_append, List.takeWhile_append_dropWhile]
      · rw [List.forall_mem_cons]
        exact ⟨rfl, fun c hc => isNumberPart_of_isAsciiDigit (isAsciiDigit_of_mem_takeWhile c hc)⟩
      · simp [Text.isAsciiDigit]
      · intro s _ hs
        obtain ⟨htake, hdrop⟩ := takeWhile_row (r'.takeWhile Text.isAsciiDigit)
          isAsciiDigit_of_mem_takeWhile hs
        simp only [List.cons_append, takeFraction, htake, hdrop, if_neg hne]
  · next hpoint =>
    cases h
    exact ⟨[], rfl, by simp, by simp, fun s hs _ => nothing s (hs rfl)⟩

/-- Without a sign at its start a text is left as it is. -/
theorem takeSign_of_head {t : Text} (h : ∀ c ∈ t.head?, c ≠ '+' ∧ c ≠ '-') :
    Literal.takeSign t = (false, t) := by
  unfold Literal.takeSign
  split
  · exact absurd rfl (h '-' rfl).2
  · exact absurd rfl (h '+' rfl).1
  · rfl

/-- What `takeSign` takes: nothing, or a sign; and the same off any text that starts with a
digit. -/
theorem takeSign_eq {t r : Text} {negative : Bool} (h : Literal.takeSign t = (negative, r)) :
    ∃ w, t = w ++ r ∧ (∀ c ∈ w, isNumberPart c = true) ∧
      ∀ s : Text, (∀ c ∈ s.head?, Text.isAsciiDigit c = true) →
        Literal.takeSign (w ++ s) = (negative, s) := by
  unfold Literal.takeSign at h
  split at h
  · cases h
    exact ⟨['-'], rfl, by simp; rfl, fun s _ => rfl⟩
  · cases h
    exact ⟨['+'], rfl, by simp; rfl, fun s _ => rfl⟩
  · cases h
    refine ⟨[], rfl, by simp, ?_⟩
    intro s hs
    apply takeSign_of_head
    intro c hc
    constructor
    · rintro rfl
      exact absurd (hs '+' hc) (by decide)
    · rintro rfl
      exact absurd (hs '-' hc) (by decide)

/-- Where a number stops there is no exponent. -/
theorem takeExponent_of_stopsNumber {s : Text} (hs : StopsNumber s) :
    takeExponent s = (none, s) := by
  cases s with
  | nil => rfl
  | cons c s =>
    have hc : (c == 'e' || c == 'E') = false := by
      rw [stopsNumber_cons] at hs
      simp only [isNumberPart, Bool.or_eq_false_iff] at hs
      simp [hs]
    simp [takeExponent, hc]

/-- What `takeExponent` takes: nothing, or a letter with a sign and digits; and the same off any
text that does not go on with a number. -/
theorem takeExponent_eq {t r : Text} {e : Option Int} (h : takeExponent t = (e, r)) :
    ∃ w, t = w ++ r ∧ (∀ c ∈ w, isNumberPart c = true) ∧ (∀ c ∈ w.head?, c = 'e' ∨ c = 'E') ∧
      ∀ s, StopsNumber s → takeExponent (w ++ s) = (e, s) := by
  rcases t with _ | ⟨c, t⟩
  · cases h
    exact ⟨[], rfl, by simp, by simp, fun s => takeExponent_of_stopsNumber⟩
  rcases hsign : Literal.takeSign t with ⟨negative, r₁⟩
  simp only [takeExponent, hsign] at h
  split at h
  · next hc =>
    split at h
    · cases h
      exact ⟨[], rfl, by simp, by simp, fun s => takeExponent_of_stopsNumber⟩
    · next hne =>
      cases h
      have hletter : c = 'e' ∨ c = 'E' := by simpa using hc
      have hpart : isNumberPart c = true := by
        rcases hletter with rfl | rfl <;> rfl
      have hdigits : ∀ d ∈ r₁.takeWhile Text.isAsciiDigit, isNumberPart d = true :=
        fun d hd => isNumberPart_of_isAsciiDigit (isAsciiDigit_of_mem_takeWhile d hd)
      obtain ⟨sign, rfl, hsignPart, hsign'⟩ := takeSign_eq hsign
      refine ⟨c :: (sign ++ r₁.takeWhile Text.isAsciiDigit), ?_, ?_, ?_, ?_⟩
      · rw [List.cons_append, List.append_assoc, List.takeWhile_append_dropWhile]
      · rw [List.forall_mem_cons, List.forall_mem_append]
        exact ⟨hpart, hsignPart, hdigits⟩
      · simpa using hletter
      · intro s hs
        obtain ⟨htake, hdrop⟩ := takeWhile_row (r₁.takeWhile Text.isAsciiDigit)
          isAsciiDigit_of_mem_takeWhile hs.not_isAsciiDigit
        have hhead : ∀ d ∈ (r₁.takeWhile Text.isAsciiDigit ++ s).head?,
            Text.isAsciiDigit d = true := by
          intro d hd
          rcases hds : r₁.takeWhile Text.isAsciiDigit with _ | ⟨d', ds⟩
          · exact absurd (by rw [hds]; rfl) hne
          · rw [hds] at hd
            cases hd
            exact isAsciiDigit_of_mem_takeWhile d (by rw [hds]; exact List.mem_cons_self)
        rw [List.cons_append, List.append_assoc]
        simp only [takeExponent, hc, if_true, hsign' _ hhead, htake, hdrop, if_neg hne]
  · cases h
    exact ⟨[], rfl, by simp, by simp, fun s => takeExponent_of_stopsNumber⟩

/-- Without a minus sign a number is positive. -/
theorem number_of_head {t : Text} (h : ∀ c ∈ t.head?, c ≠ '-') :
    number t = numberAfter false t := by
  unfold number
  split
  · exact absurd rfl (h '-' rfl)
  · rfl

/-- What is read behind a sign starts with a digit and is a literal at the start of the text. -/
theorem numberAfter_eq_ok {negative : Bool} {t r : Text} {v : Value}
    (h : numberAfter negative t = .ok (v, r)) :
    ∃ c w, t = c :: w ++ r ∧ Text.isAsciiDigit c = true ∧ (∀ d ∈ w, isNumberPart d = true) ∧
      ∀ s, StopsNumber s → numberAfter negative (c :: w ++ s) = .ok (v, s) := by
  unfold numberAfter at h
  rcases hwhole : takeWhole t with _ | ⟨ds, r₁⟩
  · simp [hwhole] at h
  rcases hfraction : takeFraction r₁ with ⟨part, r₂⟩
  rcases hexponent : takeExponent r₂ with ⟨exponent, r₃⟩
  simp only [hwhole, hfraction, hexponent] at h
  obtain ⟨ht, hne, hds, hwhole'⟩ := takeWhole_eq_some hwhole
  obtain ⟨w₂, hr₁, hpart₂, hhead₂, hfraction'⟩ := takeFraction_eq hfraction
  obtain ⟨w₃, hr₂, hpart₃, hhead₃, hexponent'⟩ := takeExponent_eq hexponent
  obtain ⟨c, ds', rfl⟩ := List.exists_cons_of_ne_nil hne
  rw [List.forall_mem_cons] at hds
  have hr : r₃ = r := by
    split at h
    · split at h
      · cases h
      · cases h
        rfl
    · cases h
      rfl
  subst hr
  refine ⟨c, ds' ++ w₂ ++ w₃, ?_, hds.1, ?_, ?_⟩
  · rw [ht, hr₁, hr₂]
    simp
  · rw [List.forall_mem_append, List.forall_mem_append]
    exact ⟨⟨fun d hd => isNumberPart_of_isAsciiDigit (hds.2 d hd), hpart₂⟩, hpart₃⟩
  · intro s hs
    -- behind the whole digits comes a point, a letter, or what stops the number
    have hhead₃s : ∀ d ∈ (w₃ ++ s).head?, Text.isAsciiDigit d = false ∧ d ≠ '.' := by
      intro d hd
      rcases w₃ with _ | ⟨d', w₃⟩
      · refine ⟨hs.not_isAsciiDigit d hd, ?_⟩
        rintro rfl
        exact absurd (hs '.' hd) (by decide)
      · cases hd
        rcases hhead₃ d rfl with rfl | rfl <;> exact ⟨rfl, by decide⟩
    have hhead₂s : ∀ d ∈ (w₂ ++ (w₃ ++ s)).head?, Text.isAsciiDigit d = false := by
      intro d hd
      rcases w₂ with _ | ⟨d', w₂⟩
      · exact (hhead₃s d hd).1
      · exact hhead₂ d hd
    have htext : c :: (ds' ++ w₂ ++ w₃) ++ s = (c :: ds') ++ (w₂ ++ (w₃ ++ s)) := by simp
    rw [htext]
    unfold numberAfter
    simp only [hwhole' _ hhead₂s, hfraction' _ (fun _ d hd => (hhead₃s d hd).2)
      (fun d hd => (hhead₃s d hd).1), hexponent' s hs]
    split at h
    · split at h
      · cases h
      · cases h
        simp_all
    · cases h
      simp_all

/-- **A number that is read is a literal at the start of the text.** It begins with a digit, or with
a minus sign and a digit, is made of parts of numbers, and reads the same in front of any text that
a number cannot go on into. -/
theorem number_eq_ok {t r : Text} {v : Value} (h : number t = .ok (v, r)) :
    ∃ w, t = w ++ r ∧ (∀ c ∈ w, isNumberPart c = true) ∧
      ((∃ c w', w = c :: w' ∧ Text.isAsciiDigit c = true) ∨
        ∃ c w', w = '-' :: c :: w' ∧ Text.isAsciiDigit c = true) ∧
      ∀ s, StopsNumber s → number (w ++ s) = .ok (v, s) := by
  by_cases hminus : ∃ u, t = '-' :: u
  · obtain ⟨u, rfl⟩ := hminus
    rw [number] at h
    obtain ⟨c, w, hu, hc, hw, hreads⟩ := numberAfter_eq_ok h
    refine ⟨'-' :: c :: w, by rw [hu]; rfl, ?_, .inr ⟨c, w, rfl, hc⟩, hreads⟩
    rw [List.forall_mem_cons, List.forall_mem_cons]
    exact ⟨rfl, isNumberPart_of_isAsciiDigit hc, hw⟩
  · have hhead : ∀ c ∈ t.head?, c ≠ '-' := by
      rintro c hc rfl
      cases t with
      | nil => cases hc
      | cons d u =>
        cases hc
        exact hminus ⟨u, rfl⟩
    rw [number_of_head hhead] at h
    obtain ⟨c, w, hu, hc, hw, hreads⟩ := numberAfter_eq_ok h
    refine ⟨c :: w, hu, ?_, .inl ⟨c, w, rfl, hc⟩, ?_⟩
    · rw [List.forall_mem_cons]
      exact ⟨isNumberPart_of_isAsciiDigit hc, hw⟩
    · intro s hs
      rw [number_of_head]
      · exact hreads s hs
      · rintro d hd rfl
        cases hd
        exact absurd hc (by decide)

end ShapedReply.Reader
