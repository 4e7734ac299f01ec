import Mathlib.Data.List.Basic
import ShapedReply.Proofs.Reading.Tree
import ShapedReply.Value.Writer

/-!
# Written numbers

Whole numbers are written by their digits, and the reader takes them back: **a whole number within
the limit on digits reads as itself, and one beyond it is refused** (`read_integer`). The digits of
a number start with a zero only if they are a single zero (`exists_toDigits_eq_cons`), which is what
the grammar asks for.

Of a double we only need what its text is made of: parts of number literals
(`isNumberPart_of_mem_magnitude`).
-/

namespace ShapedReply.Reader

open Text Spelling

/-! ## Digits -/

/-- Numbers are written with the ten digits. -/
theorem isAsciiDigit_of_mem_toDigits {n : Nat} {c : Char} (h : c ∈ Nat.toDigits 10 n) :
    Text.isAsciiDigit c = true := by
  have hdigit := Nat.isDigit_of_mem_toDigits (by decide) (by decide) h
  rw [Char.isDigit, Bool.and_eq_true, decide_eq_true_eq, decide_eq_true_eq] at hdigit
  rw [Text.isAsciiDigit, Bool.and_eq_true, decide_eq_true_eq, decide_eq_true_eq]
  exact hdigit

/-- The value of a row of the ten digits. -/
theorem digitsValue_eq_ofDigitChars {ds : List Char} (h : ∀ c ∈ ds, Text.isAsciiDigit c = true) :
    digitsValue ds = Nat.ofDigitChars 10 ds 0 := by
  have hdigit : ∀ c ∈ digits, (digitValue? c).getD 0 = c.toNat - '0'.toNat := by decide
  rw [digitsValue, Nat.ofDigitChars_eq_foldl]
  apply List.foldl_ext
  intro n c hc
  rw [hdigit c (mem_digits (h c hc))]

/-- The digits of a number spell it. -/
theorem digitsValue_toDigits (n : Nat) : digitsValue (Nat.toDigits 10 n) = n := by
  rw [digitsValue_eq_ofDigitChars fun _ => isAsciiDigit_of_mem_toDigits]
  exact Nat.ofDigitChars_ten_toDigits

/-- The digits of a number start with a zero only if the number is zero. -/
theorem exists_toDigits_eq_cons (n : Nat) :
    ∃ c r, Nat.toDigits 10 n = c :: r ∧ (c = '0' → r = []) := by
  induction n using Nat.strongRecOn with
  | ind n ih =>
    rw [Nat.toDigits_eq_if (by decide)]
    split
    · exact ⟨_, _, rfl, fun _ => rfl⟩
    · next hlarge =>
      obtain ⟨c, r, hdigits, hzero⟩ := ih (n / 10) (by omega)
      refine ⟨c, r ++ [(n % 10).digitChar], by rw [hdigits]; rfl, ?_⟩
      -- a quotient that is written with a zero alone is zero, and the number would be a single
      -- digit
      rintro rfl
      have hvalue := digitsValue_toDigits (n / 10)
      rw [hdigits, hzero rfl] at hvalue
      have : n / 10 = 0 := hvalue.symm
      omega

/-! ## Whole numbers -/

/-- All digits of a number are taken. -/
theorem takeWhole_toDigits (n : Nat) :
    takeWhole (Nat.toDigits 10 n) = some (Nat.toDigits 10 n, []) := by
  have hdigits : ∀ d ∈ Nat.toDigits 10 n, Text.isAsciiDigit d = true := fun _ =>
    isAsciiDigit_of_mem_toDigits
  obtain ⟨c, r, htext, hzero⟩ := exists_toDigits_eq_cons n
  rw [htext] at hdigits ⊢
  rw [List.forall_mem_cons] at hdigits
  by_cases hc : c = '0'
  · rw [hc, hzero hc]
    rfl
  · have hrow := takeWhole_row hdigits.1 hc hdigits.2 (s := []) (by simp)
    rwa [List.append_nil] at hrow

/-- The digits of a number read as the number, within the limit on digits. -/
theorem numberAfter_toDigits (negative : Bool) (n : Nat) :
    numberAfter negative (Nat.toDigits 10 n) =
      if (Nat.toDigits 10 n).length > maxIntegerDigits then
        .error (.integerTooLong (Nat.toDigits 10 n).length)
      else .ok (.int (Double.signed negative n), []) := by
  simp only [numberAfter, takeWhole_toDigits, takeFraction, takeExponent, List.isEmpty_nil,
    Option.isNone_none, Bool.and_self, if_true, digitsValue_toDigits]

/-- A whole number is read from its text, if it has not too many digits. -/
theorem number_integer (n : Int) :
    number (Writer.integer n) =
      if (Nat.toDigits 10 n.natAbs).length > maxIntegerDigits then
        .error (.integerTooLong (Nat.toDigits 10 n.natAbs).length)
      else .ok (.int n, []) := by
  have hsigned : Double.signed (decide (n < 0)) n.natAbs = n := by
    unfold Double.signed
    split
    · next h =>
      rw [decide_eq_true_eq] at h
      omega
    · next h =>
      rw [decide_eq_true_eq] at h
      omega
  have hnumber : number (Writer.integer n) =
      numberAfter (decide (n < 0)) (Nat.toDigits 10 n.natAbs) := by
    unfold Writer.integer
    by_cases hn : n < 0
    · rw [if_pos hn, decide_eq_true hn]
      rfl
    · rw [if_neg hn, decide_eq_false hn]
      apply number_of_head
      rintro c hc rfl
      have hminus := isAsciiDigit_of_mem_toDigits (List.mem_of_head? hc)
      exact absurd hminus (by decide)
  rw [hnumber, numberAfter_toDigits, hsigned]

/-- The text of a whole number is made of parts of numbers. -/
theorem isNumberPart_of_mem_integer {n : Int} {c : Char} (h : c ∈ Writer.integer n) :
    isNumberPart c = true := by
  unfold Writer.integer at h
  rcases List.mem_append.mp h with h | h
  · split at h
    · rw [List.mem_singleton.mp h]
      rfl
    · cases h
  · exact isNumberPart_of_isAsciiDigit (isAsciiDigit_of_mem_toDigits h)

/-- The text of a whole number starts a number. -/
theorem startsNumber_integer (n : Int) : startsNumber (Writer.integer n) = true := by
  obtain ⟨c, r, hdigits, -⟩ := exists_toDigits_eq_cons n.natAbs
  have hc : Text.isAsciiDigit c = true := by
    apply isAsciiDigit_of_mem_toDigits (n := n.natAbs)
    rw [hdigits]
    exact List.mem_cons_self
  unfold Writer.integer
  rw [hdigits]
  split
  · exact hc
  · exact startsNumber_of_isAsciiDigit hc r

/-- A text that starts a number, and is one to its end, is read as that number. -/
theorem read_of_number {t : Text} {outcome : Except ReadError Value} (h : startsNumber t = true)
    (hnumber : number t = outcome.map fun v => (v, [])) : Value.read t = outcome := by
  have hstart : skipValueBlanks t = t := by
    have hblank : ∀ c ∈ digits, isValueBlank c = false := by decide
    unfold startsNumber at h
    split at h
    · rfl
    · exact skipValueBlanks_cons (hblank _ (mem_digits h)) _
    · cases h
  rw [Value.read, hstart, budget, value_of_startsNumber h, hnumber]
  cases outcome with
  | error e => rfl
  | ok v => rfl

/-- **A whole number within the limit on digits reads as itself, and one beyond it is refused.** -/
theorem read_integer (n : Int) :
    Value.read (Writer.integer n) =
      if (Nat.toDigits 10 n.natAbs).length > maxIntegerDigits then
        .error (.integerTooLong (Nat.toDigits 10 n.natAbs).length)
      else .ok (.int n) := by
  apply read_of_number (startsNumber_integer n)
  rw [number_integer]
  split
  · rfl
  · rfl

/-! ## Doubles -/

/-- The significant digits are parts of a number. -/
theorem isNumberPart_of_mem_significant (n : Nat) :
    ∀ c ∈ NumberStyle.significant n, isNumberPart c = true := by
  intro c hc
  rw [NumberStyle.significant, List.mem_reverse] at hc
  have hdigit := List.mem_reverse.mp (List.dropWhile_subset _ hc)
  exact isNumberPart_of_isAsciiDigit (isAsciiDigit_of_mem_toDigits hdigit)

/-- **A decimal is written with parts of numbers**, in every style. -/
theorem isNumberPart_of_mem_magnitude (style : NumberStyle) (d : Decimal) :
    ∀ c ∈ style.magnitude d, isNumberPart c = true := by
  have hsignificant := isNumberPart_of_mem_significant d.digits
  have hzeros : ∀ n, ∀ c ∈ List.replicate n '0', isNumberPart c = true := by
    intro n c hc
    rw [List.eq_of_mem_replicate hc]
    rfl
  have hpadded : ∀ width n, ∀ c ∈ NumberStyle.padded width n, isNumberPart c = true := by
    intro width n
    rw [NumberStyle.padded, List.forall_mem_append]
    exact ⟨hzeros _, fun c hc => isNumberPart_of_isAsciiDigit (isAsciiDigit_of_mem_toDigits hc)⟩
  unfold NumberStyle.magnitude
  simp only
  split
  · decide
  · next first rest hds =>
    obtain ⟨hfirst, hrest⟩ := List.forall_mem_cons.mp (hds ▸ hsignificant)
    split
    · split
      · simp only [List.forall_mem_append]
        exact ⟨⟨by decide, hzeros _⟩, hsignificant⟩
      · simp only [List.forall_mem_append]
        refine ⟨⟨⟨?_, hzeros _⟩, by decide⟩, ?_⟩
        · exact fun c hc => hsignificant c (List.mem_of_mem_take hc)
        · split
          · decide
          · exact fun c hc => hsignificant c (List.mem_of_mem_drop hc)
    · simp only [List.forall_mem_append]
      refine ⟨⟨⟨⟨?_, ?_⟩, by decide⟩, ?_⟩, hpadded _ _⟩
      · exact List.forall_mem_singleton.mpr hfirst
      · split
        · exact List.forall_mem_nil _
        · exact List.forall_mem_cons.mpr ⟨rfl, hrest⟩
      · split
        · decide
        · decide

end ShapedReply.Reader
