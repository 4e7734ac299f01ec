import Mathlib.Algebra.Order.Field.Power
import Mathlib.Data.Rat.Cast.Order
import Mathlib.Tactic.FieldSimp
import Mathlib.Tactic.Linarith
import Mathlib.Tactic.NormNum
import Mathlib.Tactic.Positivity
import Mathlib.Tactic.Ring
import ShapedReply.Number.Double

/-!
# Rounding to doubles

A decimal is read by one rounding. Here that rounding is measured against the numbers that doubles
stand for: **a decimal is read as the nearest double** (`rounds_ofDecimal`). It is off by a 2^53rd
of the number at most, or by half of the least double, and only a number beyond the greatest double
is read as infinite.

* `IsDouble`: the numbers that are a double; `IsNearest`: no double is closer to a number.
* `Rounded x m q`: the mantissa `m` at the exponent `q` is what `x` is rounded to. What rounding
  does is derived from this alone; `ofRatio_cases` says how a quotient comes by it.
* `Rounds x d`: all that is promised of the double `d` that `x` is read as.
* `natAbs_lt_of_isFinite`: a whole number with a finite double has at most 311 digits.
* `toInt?_eq_some_iff`: a double is the whole number that it stands for.
-/

namespace ShapedReply.Double

/-! ## The numbers that doubles stand for -/

/-- The factor of a sign. -/
def sign (negative : Bool) : ℚ :=
  if negative then -1 else 1

/-- The number that a double stands for, unless it is infinite. -/
def toRat? : Double → Option ℚ
  | .finite negative m q => some (sign negative * (m * 2 ^ q))
  | .infinite _ => none

/-- A number is a double: 53 bits at an exponent in range. -/
def IsDouble (v : ℚ) : Prop :=
  ∃ m q : ℤ, |m| < 2 ^ 53 ∧ minExponent ≤ q ∧ q ≤ maxExponent ∧ v = m * 2 ^ q

/-- A double to which no other is closer. -/
structure IsNearest (x v : ℚ) : Prop where
  /-- It is a double. -/
  isDouble : IsDouble v
  /-- No double is closer. -/
  least : ∀ w, IsDouble w → |x - v| ≤ |x - w|

/-- Powers of two are positive. -/
theorem two_zpow_pos (q : Int) : (0 : ℚ) < 2 ^ q :=
  zpow_pos two_pos q

section nearest

variable {x v : ℚ}

/-- The negative of a double is one. -/
theorem IsDouble.neg (h : IsDouble v) : IsDouble (-v) := by
  obtain ⟨m, q, hm, hmin, hmax, rfl⟩ := h
  exact ⟨-m, q, by rwa [abs_neg], hmin, hmax, by push_cast; ring⟩

/-- Zero is a double. -/
theorem isDouble_zero : IsDouble 0 :=
  ⟨0, 0, by norm_num, by decide, by decide, by norm_num⟩

/-- A double is nearest to itself only. -/
theorem IsNearest.eq_of_isDouble (h : IsNearest x v) (hx : IsDouble x) : v = x := by
  have hzero := h.least x hx
  rw [sub_self, abs_zero] at hzero
  exact (sub_eq_zero.mp (abs_nonpos_iff.mp hzero)).symm

/-- Being nearest does not depend on the sign. -/
theorem IsNearest.neg (h : IsNearest x v) : IsNearest (-x) (-v) := by
  refine ⟨h.isDouble.neg, fun w hw => ?_⟩
  have hleast := h.least (-w) hw.neg
  rwa [← abs_neg, ← abs_neg (x - -w), neg_sub', neg_sub', neg_neg] at hleast

/-- Being nearest does not depend on the sign, given as a truth value. -/
theorem IsNearest.sign (h : IsNearest x v) (negative : Bool) :
    IsNearest (Double.sign negative * x) (Double.sign negative * v) := by
  cases negative with
  | false => simpa [Double.sign] using h
  | true => simpa [Double.sign] using h.neg

/-- A sign does not change the absolute value. -/
theorem abs_sign_mul (negative : Bool) (x : ℚ) : |sign negative * x| = |x| := by
  cases negative <;> simp [sign]

/-- Doubles are at most the largest one. -/
theorem IsDouble.abs_le (h : IsDouble v) : |v| ≤ (2 ^ 53 - 1) * 2 ^ maxExponent := by
  obtain ⟨m, q, hm, -, hmax, rfl⟩ := h
  have hm' : |(m : ℚ)| ≤ 2 ^ 53 - 1 := by
    have hle : |m| ≤ 2 ^ 53 - 1 := by omega
    exact_mod_cast hle
  rw [abs_mul, abs_of_pos (two_zpow_pos q)]
  have hpow : (2 : ℚ) ^ q ≤ 2 ^ maxExponent := zpow_le_zpow_right₀ one_le_two hmax
  exact mul_le_mul hm' hpow (by positivity) (by norm_num)

/-- Between zero and the least positive double there is none. -/
theorem IsDouble.le_abs (h : IsDouble v) (hv : v ≠ 0) : 2 ^ minExponent ≤ |v| := by
  obtain ⟨m, q, -, hmin, -, rfl⟩ := h
  have hm : m ≠ 0 := by
    rintro rfl
    simp at hv
  have hm' : 1 ≤ |(m : ℚ)| := by exact_mod_cast Int.one_le_abs hm
  rw [abs_mul, abs_of_pos (two_zpow_pos q)]
  calc (2 : ℚ) ^ minExponent ≤ 2 ^ q := zpow_le_zpow_right₀ one_le_two hmin
    _ ≤ |(m : ℚ)| * 2 ^ q := le_mul_of_one_le_left (by positivity) hm'

end nearest

/-! ## Rounding to whole numbers -/

/-- A quotient is rounded by a half at most. -/
theorem abs_sub_roundHalfEven_le (num : Nat) {den : Nat} (hden : 0 < den) :
    |(num : ℚ) / den - roundHalfEven num den| ≤ 1 / 2 := by
  have hden' : (0 : ℚ) < den := by exact_mod_cast hden
  have hparts : (num : ℚ) / den = (num / den : Nat) + (num % den : Nat) / den := by
    field_simp
    exact_mod_cast (Nat.div_add_mod num den).symm
  have hrest : (((num % den : Nat) : ℚ) / den) < 1 := by
    rw [div_lt_one hden']
    exact_mod_cast Nat.mod_lt num hden
  have hlow : (0 : ℚ) ≤ (num % den : Nat) / den := by positivity
  have hhalf : ((num % den : Nat) : ℚ) / den ≤ 1 / 2 ↔ 2 * (num % den) ≤ den := by
    rw [div_le_div_iff₀ hden' two_pos, one_mul, mul_comm]
    exact_mod_cast Iff.rfl
  have hhalf' : 1 / 2 ≤ ((num % den : Nat) : ℚ) / den ↔ den ≤ 2 * (num % den) := by
    rw [div_le_div_iff₀ two_pos hden', one_mul, mul_comm (_ : ℚ) 2]
    exact_mod_cast Iff.rfl
  have hdown : 2 * (num % den) ≤ den → |(num : ℚ) / den - (num / den : Nat)| ≤ 1 / 2 := by
    intro hle
    have hle := hhalf.mpr hle
    rw [hparts, abs_le]
    constructor <;> linarith
  have hup : den ≤ 2 * (num % den) → |(num : ℚ) / den - (num / den + 1 : Nat)| ≤ 1 / 2 := by
    intro hle
    have hle := hhalf'.mpr hle
    rw [hparts, abs_le]
    push_cast
    constructor <;> linarith
  unfold roundHalfEven
  simp only
  split
  · exact hdown (by omega)
  · split
    · exact hup (by omega)
    · split
      · exact hdown (by omega)
      · exact hup (by omega)

/-- What is off by a half at most is nearest among the whole numbers. -/
theorem abs_sub_le_of_half {x : ℚ} {m : ℤ} (h : |x - m| ≤ 1 / 2) (z : ℤ) : |x - m| ≤ |x - z| := by
  rcases eq_or_ne m z with rfl | hne
  · exact le_refl _
  have hone : (1 : ℚ) ≤ |(m : ℚ) - z| := by exact_mod_cast Int.one_le_abs (sub_ne_zero.mpr hne)
  have htriangle : |(m : ℚ) - z| ≤ |m - x| + |x - z| := abs_sub_le _ x _
  rw [abs_sub_comm (m : ℚ) x] at htriangle
  linarith

/-! ## Exponents -/

section exponents

variable {num den : Nat}

/-- The scaled denominator is positive. -/
theorem scaled_pos (num : Nat) (hden : 0 < den) (q : Int) : 0 < (scaled num den q).2 := by
  unfold scaled
  split
  · exact hden
  · exact Nat.mul_pos hden (Nat.pow_pos two_pos)

/-- Scaling divides by a power of two. -/
theorem scaled_div (hden : 0 < den) (q : Int) :
    ((scaled num den q).1 : ℚ) / (scaled num den q).2 = num / den / 2 ^ q := by
  have hden' : (den : ℚ) ≠ 0 := by exact_mod_cast hden.ne'
  unfold scaled
  split
  · next hq =>
    obtain ⟨k, rfl⟩ : ∃ k : Nat, q = -(k : Int) := ⟨(-q).toNat, by omega⟩
    simp only [neg_neg, Int.toNat_natCast, Nat.pow_eq, Nat.cast_mul, Nat.cast_pow, Nat.cast_ofNat,
      zpow_neg, zpow_natCast]
    field_simp
  · next hq =>
    obtain ⟨k, rfl⟩ : ∃ k : Nat, q = (k : Int) := ⟨q.toNat, by omega⟩
    simp only [Int.toNat_natCast, Nat.pow_eq, Nat.cast_mul, Nat.cast_pow, Nat.cast_ofNat,
      zpow_natCast]
    field_simp

/-- The bit lengths bound a quotient from both sides. -/
theorem div_bounds (hnum : num ≠ 0) (hden : 0 < den) :
    2 ^ 51 * 2 ^ ((num.log2 : Int) - den.log2 - 52) < (num : ℚ) / den ∧
      (num : ℚ) / den < 2 ^ 53 * 2 ^ ((num.log2 : Int) - den.log2 - 52) := by
  have hden' : (0 : ℚ) < den := by exact_mod_cast hden
  have hnumLow : (2 : ℚ) ^ num.log2 ≤ num := by exact_mod_cast Nat.log2_self_le hnum
  have hnumHigh : (num : ℚ) < 2 * 2 ^ num.log2 := by
    rw [← pow_succ']
    exact_mod_cast Nat.lt_log2_self
  have hdenLow : (2 : ℚ) ^ den.log2 ≤ den := by exact_mod_cast Nat.log2_self_le hden.ne'
  have hdenHigh : (den : ℚ) < 2 * 2 ^ den.log2 := by
    rw [← pow_succ']
    exact_mod_cast Nat.lt_log2_self
  set a : Int := num.log2 - den.log2 - 52
  have ha := two_zpow_pos a
  have hpow : (2 : ℚ) ^ num.log2 = 2 ^ 52 * 2 ^ a * 2 ^ den.log2 := by
    rw [← zpow_natCast, ← zpow_natCast, ← zpow_natCast, ← zpow_add₀ two_ne_zero,
      ← zpow_add₀ two_ne_zero]
    congr 1
    omega
  constructor
  · calc (2 : ℚ) ^ 51 * 2 ^ a = 2 ^ num.log2 / (2 * 2 ^ den.log2) := by rw [hpow]; field_simp
      _ < 2 ^ num.log2 / den := div_lt_div_of_pos_left (by positivity) hden' hdenHigh
      _ ≤ num / den := div_le_div_of_nonneg_right hnumLow hden'.le
  · calc (num : ℚ) / den < 2 * 2 ^ num.log2 / den := div_lt_div_of_pos_right hnumHigh hden'
      _ ≤ 2 * 2 ^ num.log2 / 2 ^ den.log2 := div_le_div_of_nonneg_left (by positivity)
        (by positivity) hdenLow
      _ = 2 ^ 53 * 2 ^ a := by rw [hpow]; field_simp

/-- The exponent for a quotient leaves 53 bits before the point, or fewer at the least exponent. -/
theorem exponentFor_spec (hnum : num ≠ 0) (hden : 0 < den) :
    minExponent ≤ exponentFor num den ∧ (num : ℚ) / den < 2 ^ 53 * 2 ^ exponentFor num den ∧
      (exponentFor num den = minExponent ∨ 2 ^ 52 * 2 ^ exponentFor num den ≤ (num : ℚ) / den) := by
  obtain ⟨hlow, hhigh⟩ := div_bounds hnum hden
  unfold exponentFor
  simp only
  set a : Int := num.log2 - den.log2 - 52
  have hcompare : (scaled num den a).1 < Nat.pow 2 52 * (scaled num den a).2 ↔
      (num : ℚ) / den < 2 ^ 52 * 2 ^ a := by
    have hpos : (0 : ℚ) < (scaled num den a).2 := by exact_mod_cast scaled_pos num hden a
    rw [← div_lt_iff₀ (two_zpow_pos a), ← scaled_div hden, div_lt_iff₀ hpos]
    exact_mod_cast Iff.rfl
  have hhalf : (2 : ℚ) ^ a = 2 * 2 ^ (a - 1) := by
    rw [← zpow_one_add₀ two_ne_zero, add_sub_cancel]
  -- The estimate, corrected by one, is the exponent if there are no bounds to it.
  obtain ⟨b, hb, hbits⟩ :
      ∃ b, (if (scaled num den a).1 < Nat.pow 2 52 * (scaled num den a).2 then a - 1
      else a) = b ∧ 2 ^ 52 * 2 ^ b ≤ (num : ℚ) / den ∧ (num : ℚ) / den < 2 ^ 53 * 2 ^ b := by
    by_cases h : (num : ℚ) / den < 2 ^ 52 * 2 ^ a
    · refine ⟨a - 1, if_pos (hcompare.mpr h), ?_, ?_⟩ <;> linarith
    · exact ⟨a, if_neg fun h' => h (hcompare.mp h'), not_lt.mp h, hhigh⟩
  rw [hb]
  rcases le_total b minExponent with hle | hle
  · rw [max_eq_right hle]
    have hpow : (2 : ℚ) ^ b ≤ 2 ^ minExponent := zpow_le_zpow_right₀ one_le_two hle
    exact ⟨le_refl _, by linarith, .inl rfl⟩
  · rw [max_eq_left hle]
    exact ⟨hle, hbits.2, .inr hbits.1⟩

end exponents

/-! ## Rounding to doubles -/

/-- A mantissa at an exponent is what a positive number is rounded to, if there are no bounds to
exponents. -/
structure Rounded (x : ℚ) (m : Nat) (q : Int) : Prop where
  /-- It is off by half a unit at most. -/
  half : |x - m * 2 ^ q| ≤ 2 ^ q / 2
  /-- The exponent is not less than the least one. -/
  min_le : minExponent ≤ q
  /-- The number has 53 bits before the point at most. -/
  lt : x < 2 ^ 53 * 2 ^ q
  /-- It has as many, if the exponent is not the least one. -/
  normal : q = minExponent ∨ 2 ^ 52 * 2 ^ q ≤ x

namespace Rounded

variable {x : ℚ} {m : Nat} {q : Int}

/-- A rounded mantissa has at most 53 bits, or it is the next power of two. -/
theorem mantissa_le (h : Rounded x m q) : m ≤ 2 ^ 53 := by
  have hq := two_zpow_pos q
  have hclose := (abs_le.mp h.half).1
  have hlt : (m : ℚ) * 2 ^ q < (2 ^ 53 + 1) * 2 ^ q := by linarith [h.lt]
  have hm : (m : ℚ) < 2 ^ 53 + 1 := lt_of_mul_lt_mul_right hlt hq.le
  exact Nat.lt_succ_iff.mp (by exact_mod_cast hm)

/-- Among the multiples of its unit, the rounded number is nearest. -/
theorem le_abs_sub_mul (h : Rounded x m q) (z : ℤ) : |x - m * 2 ^ q| ≤ |x - z * 2 ^ q| := by
  have hq := two_zpow_pos q
  have hscale : ∀ y : ℚ, |x - y * 2 ^ q| = |x / 2 ^ q - y| * 2 ^ q := by
    intro y
    rw [← abs_of_pos hq, ← abs_mul, abs_of_pos hq, sub_mul, div_mul_cancel₀ x hq.ne']
  have hhalf := h.half
  rw [hscale] at hhalf ⊢
  rw [hscale]
  have hclose : |x / 2 ^ q - (m : ℤ)| ≤ 1 / 2 := by
    refine le_of_mul_le_mul_right ?_ hq
    rw [Int.cast_natCast]
    linarith
  exact mul_le_mul_of_nonneg_right (abs_sub_le_of_half hclose z) hq.le

/-- No double is closer. -/
theorem le_abs_sub (h : Rounded x m q) {w : ℚ} (hw : IsDouble w) : |x - m * 2 ^ q| ≤ |x - w| := by
  obtain ⟨m', q', hm', hmin, -, rfl⟩ := hw
  rcases le_or_gt q q' with hle | hlt
  · obtain ⟨k, rfl⟩ : ∃ k : Nat, q' = k + q := ⟨(q' - q).toNat, by omega⟩
    have hmultiple : (m' : ℚ) * 2 ^ ((k : Int) + q) = (m' * 2 ^ k : ℤ) * 2 ^ q := by
      rw [zpow_add₀ two_ne_zero, zpow_natCast]
      push_cast
      ring
    rw [hmultiple]
    exact h.le_abs_sub_mul _
  · -- A double of a smaller unit lies below all 53-bit multiples of this one, and the least of
    -- them is closer.
    have hnormal : 2 ^ 52 * 2 ^ q ≤ x := h.normal.resolve_left (by omega)
    have hunit : (2 : ℚ) * 2 ^ q' ≤ 2 ^ q := by
      rw [← zpow_one_add₀ two_ne_zero]
      exact zpow_le_zpow_right₀ one_le_two (by omega)
    have hm : (m' : ℚ) ≤ 2 ^ 53 := by exact_mod_cast (le_abs_self m').trans hm'.le
    have hsmall : (m' : ℚ) * 2 ^ q' ≤ 2 ^ 52 * 2 ^ q :=
      calc (m' : ℚ) * 2 ^ q' ≤ 2 ^ 53 * 2 ^ q' := mul_le_mul_of_nonneg_right hm (two_zpow_pos q').le
        _ = 2 ^ 52 * (2 * 2 ^ q') := by ring
        _ ≤ 2 ^ 52 * 2 ^ q := mul_le_mul_of_nonneg_left hunit (by norm_num)
    calc |x - m * 2 ^ q| ≤ |x - (2 ^ 52 : ℤ) * 2 ^ q| := h.le_abs_sub_mul _
      _ = x - 2 ^ 52 * 2 ^ q := by
        push_cast
        exact abs_of_nonneg (sub_nonneg.mpr hnormal)
      _ ≤ x - m' * 2 ^ q' := by linarith
      _ ≤ |x - m' * 2 ^ q'| := le_abs_self _

/-- A number is rounded by a 2^53rd of it, or by half of the least double. -/
theorem error (h : Rounded x m q) : |x - m * 2 ^ q| ≤ max (|x| / 2 ^ 53) (2 ^ minExponent / 2) := by
  rcases h.normal with hq | hnormal
  · exact le_max_of_le_right (hq ▸ h.half)
  · refine le_max_of_le_left (h.half.trans ?_)
    have habs := le_abs_self x
    rw [le_div_iff₀ (by norm_num)]
    linarith

/-- A number that is rounded to more than fits is beyond the greatest double. -/
theorem lt_of_range (h : Rounded x m q) (hrange : 2 ^ 53 ≤ m ∧ maxExponent ≤ q ∨ maxExponent < q) :
    (2 ^ 53 - 1) * 2 ^ maxExponent < x := by
  have hmax := two_zpow_pos maxExponent
  rcases hrange with ⟨hm, hq⟩ | hq
  · have hm' : (2 : ℚ) ^ 53 ≤ m := by exact_mod_cast hm
    have hunit : (2 : ℚ) ^ maxExponent ≤ 2 ^ q := zpow_le_zpow_right₀ one_le_two hq
    have hmul : 2 ^ 53 * 2 ^ q ≤ m * (2 : ℚ) ^ q :=
      mul_le_mul_of_nonneg_right hm' (two_zpow_pos q).le
    have hclose := (abs_le.mp h.half).1
    linarith
  · have hunit : (2 : ℚ) * 2 ^ maxExponent ≤ 2 ^ q := by
      rw [← zpow_one_add₀ two_ne_zero]
      exact zpow_le_zpow_right₀ one_le_two (by omega)
    have hleast : minExponent < maxExponent := by decide
    have hnormal := h.normal.resolve_left (by omega)
    linarith

end Rounded

/-- **What rounding a quotient gives**: the rounded number, or an infinity beyond the greatest
double. -/
theorem ofRatio_cases (negative : Bool) {num den : Nat} (hnum : num ≠ 0) (hden : 0 < den) :
    ∃ m q, Rounded ((num : ℚ) / den) m q ∧
      ((ofRatio negative num den).toRat? = some (sign negative * (m * 2 ^ q)) ∧
        IsDouble (m * 2 ^ q) ∨
      (ofRatio negative num den).toRat? = none ∧
        (2 ^ 53 - 1) * 2 ^ maxExponent < (num : ℚ) / den) := by
  set q := exponentFor num den with hq
  set m := roundHalfEven (scaled num den q).1 (scaled num den q).2 with hm
  obtain ⟨hmin, hlt, hnormal⟩ := exponentFor_spec hnum hden
  have hrounded : Rounded ((num : ℚ) / den) m q := by
    refine ⟨?_, hmin, hlt, hnormal⟩
    have hq' := two_zpow_pos q
    have hhalf := abs_sub_roundHalfEven_le (scaled num den q).1 (scaled_pos num hden q)
    rw [scaled_div hden, ← hm] at hhalf
    have hscale := mul_le_mul_of_nonneg_right hhalf hq'.le
    rw [← abs_of_pos hq', ← abs_mul, abs_of_pos hq', sub_mul, div_mul_cancel₀ _ hq'.ne'] at hscale
    linarith
  refine ⟨m, q, hrounded, ?_⟩
  unfold ofRatio
  rw [if_neg hnum]
  simp only [← hq, ← hm]
  rcases hrounded.mantissa_le.lt_or_eq with hlt | heq
  · have hne : m ≠ Nat.pow 2 53 := hlt.ne
    simp only [if_neg hne]
    by_cases hmax : q > maxExponent
    · exact .inr ⟨by rw [if_pos hmax]; rfl, hrounded.lt_of_range (.inr hmax)⟩
    · refine .inl ⟨by rw [if_neg hmax]; rfl, m, q, ?_, hmin, not_lt.mp hmax, rfl⟩
      rw [Nat.abs_cast]
      exact_mod_cast hlt
  · have heq' : m = Nat.pow 2 53 := heq
    simp only [if_pos heq']
    by_cases hmax : q + 1 > maxExponent
    · have hbeyond := hrounded.lt_of_range (.inl ⟨heq.ge, Int.lt_add_one_iff.mp hmax⟩)
      exact .inr ⟨by rw [if_pos hmax]; rfl, hbeyond⟩
    · have hcarry : (m : ℚ) * 2 ^ q = (2 ^ 52 : Nat) * 2 ^ (q + 1) := by
        rw [heq, zpow_add_one₀ two_ne_zero]
        push_cast
        ring
      rw [if_neg hmax, hcarry]
      refine .inl ⟨rfl, (2 ^ 52 : Nat), q + 1, by norm_num, by omega, not_lt.mp hmax, by norm_cast⟩

/-- A double is what a number is read as. -/
structure Rounds (x : ℚ) (d : Double) : Prop where
  /-- No double is closer to the number. -/
  nearest : ∀ v, d.toRat? = some v → IsNearest x v
  /-- It is off by a 2^53rd of the number at most, or by half of the least double. -/
  error : ∀ v, d.toRat? = some v → |x - v| ≤ max (|x| / 2 ^ 53) (2 ^ minExponent / 2)
  /-- It is finite unless the number is beyond the greatest double. -/
  finite : |x| ≤ (2 ^ 53 - 1) * 2 ^ maxExponent → ∃ v, d.toRat? = some v

/-- What is at most half of the smallest double rounds to zero. -/
theorem rounds_zero (negative : Bool) {x : ℚ} (hx : |x| ≤ 2 ^ minExponent / 2) :
    Rounds x (zero negative) := by
  have hzero : (zero negative).toRat? = some 0 := by simp [zero, toRat?]
  refine ⟨?_, ?_, fun _ => ⟨0, hzero⟩⟩
  · rintro v hv
    obtain rfl := Option.some.inj (hzero.symm.trans hv)
    refine ⟨isDouble_zero, fun w hw => ?_⟩
    rcases eq_or_ne w 0 with rfl | hne
    · exact le_refl _
    · have hleast := hw.le_abs hne
      have htriangle := abs_sub_abs_le_abs_sub w x
      rw [sub_zero, abs_sub_comm x w]
      linarith
  · rintro v hv
    obtain rfl := Option.some.inj (hzero.symm.trans hv)
    rw [sub_zero]
    exact le_max_of_le_right hx

/-- What is beyond the largest double may be infinite. -/
theorem rounds_infinite {x : ℚ} {d : Double} (hd : d.toRat? = none)
    (hx : (2 ^ 53 - 1) * 2 ^ maxExponent < |x|) : Rounds x d :=
  ⟨fun v hv => absurd (hv.symm.trans hd) (Option.some_ne_none v),
    fun v hv => absurd (hv.symm.trans hd) (Option.some_ne_none v),
    fun hle => absurd hx (not_lt.mpr hle)⟩

/-- **A quotient is rounded to the nearest double.** -/
theorem rounds_ofRatio (negative : Bool) (num : Nat) {den : Nat} (hden : 0 < den) :
    Rounds (sign negative * ((num : ℚ) / den)) (ofRatio negative num den) := by
  by_cases hnum : num = 0
  · subst hnum
    rw [ofRatio, if_pos rfl]
    refine rounds_zero negative ?_
    rw [Nat.cast_zero, zero_div, mul_zero, abs_zero]
    exact (half_pos (two_zpow_pos minExponent)).le
  obtain ⟨m, q, h, ⟨hvalue, hdouble⟩ | ⟨hnone, hbeyond⟩⟩ := ofRatio_cases negative hnum hden
  · refine ⟨?_, ?_, fun _ => ⟨_, hvalue⟩⟩
    · rintro v hv
      obtain rfl := Option.some.inj (hvalue.symm.trans hv)
      exact IsNearest.sign ⟨hdouble, fun w hw => h.le_abs_sub hw⟩ negative
    · rintro v hv
      obtain rfl := Option.some.inj (hvalue.symm.trans hv)
      rw [← mul_sub, abs_sign_mul, abs_sign_mul]
      exact h.error
  · refine rounds_infinite hnone ?_
    rw [abs_sign_mul]
    exact hbeyond.trans_le (le_abs_self _)

/-! ## Decimals -/

/-- The largest double is below ten to the 310. -/
theorem max_lt_ten_zpow : (2 ^ 53 - 1) * (2 : ℚ) ^ maxExponent < 10 ^ (310 : Int) := by
  have hnat : (2 ^ 53 - 1) * 2 ^ 971 < 10 ^ 310 := by decide +kernel
  have hcast : ((2 ^ 53 - 1 : Nat) : ℚ) * 2 ^ 971 < 10 ^ 310 := by exact_mod_cast hnat
  rw [Nat.cast_sub (by decide), Nat.cast_pow, Nat.cast_ofNat, Nat.cast_one] at hcast
  exact hcast

/-- Half of the smallest double, as a fraction. -/
theorem half_min_eq : (2 : ℚ) ^ minExponent / 2 = (2 ^ 1074 * 2)⁻¹ := by
  rw [minExponent, zpow_neg, mul_inv, div_eq_mul_inv]
  rfl

/-- Ten to the -330 is at most half of the smallest double. -/
theorem ten_zpow_le_half_min : (10 : ℚ) ^ (-330 : Int) ≤ 2 ^ minExponent / 2 := by
  have hnat : 2 ^ 1074 * 2 ≤ 10 ^ 330 := by decide +kernel
  have hcast : (2 : ℚ) ^ 1074 * 2 ≤ 10 ^ 330 := by exact_mod_cast hnat
  rw [half_min_eq, zpow_neg]
  exact inv_anti₀ (by positivity) hcast

/-- Half of the smallest double is below ten to the -323. -/
theorem half_min_lt_ten_zpow : (2 : ℚ) ^ minExponent / 2 < 10 ^ (-323 : Int) := by
  have hnat : 10 ^ 323 < 2 ^ 1074 * 2 := by decide +kernel
  have hcast : (10 : ℚ) ^ 323 < 2 ^ 1074 * 2 := by exact_mod_cast hnat
  rw [half_min_eq, zpow_neg]
  exact inv_strictAnti₀ (by positivity) hcast

/-- The number of digits bounds a number from both sides. -/
theorem toDigits_bounds {m : Nat} (hm : m ≠ 0) :
    (10 : ℚ) ^ ((Nat.toDigits 10 m).length - 1 : Int) ≤ m ∧
    (m : ℚ) < 10 ^ ((Nat.toDigits 10 m).length : Int) := by
  have hten : 1 < 10 := by decide
  obtain ⟨k, hk⟩ : ∃ k, (Nat.toDigits 10 m).length = k + 1 :=
    ⟨_, (Nat.succ_pred_eq_of_pos Nat.length_toDigits_pos).symm⟩
  rw [hk]
  constructor
  · have hlow : 10 ^ k ≤ m := by
      rcases k with _ | k
      · exact Nat.one_le_iff_ne_zero.mpr hm
      · by_contra hlt
        have hle := (Nat.length_toDigits_le_iff hten (Nat.succ_pos k)).mpr (not_le.mp hlt)
        omega
    rw [Nat.cast_succ, add_sub_cancel_right, zpow_natCast]
    exact_mod_cast hlow
  · rw [zpow_natCast]
    exact_mod_cast (Nat.length_toDigits_le_iff hten (Nat.succ_pos k)).mp hk.le

/-- A decimal becomes the double that it rounds to. -/
theorem rounds_ofDecimal (negative : Bool) (m : Nat) (e : Int) :
    Rounds (sign negative * (m * 10 ^ e)) (ofDecimal negative m e) := by
  by_cases hm : m = 0
  · subst hm
    rw [ofDecimal, if_pos rfl]
    refine rounds_zero negative ?_
    rw [Nat.cast_zero, zero_mul, mul_zero, abs_zero]
    exact (half_pos (two_zpow_pos minExponent)).le
  obtain ⟨hlow, hhigh⟩ := toDigits_bounds hm
  have hten : (10 : ℚ) ≠ 0 := by norm_num
  have he : (0 : ℚ) < 10 ^ e := zpow_pos (by norm_num) e
  unfold ofDecimal
  rw [if_neg hm]
  simp only
  split
  · next hsize =>
    refine rounds_infinite rfl ?_
    rw [abs_sign_mul, abs_of_pos (mul_pos (by positivity) he)]
    calc (2 ^ 53 - 1) * (2 : ℚ) ^ maxExponent < 10 ^ (310 : Int) := max_lt_ten_zpow
      _ ≤ 10 ^ ((Nat.toDigits 10 m).length - 1 + e : Int) :=
        zpow_le_zpow_right₀ (by norm_num) (by omega)
      _ = 10 ^ ((Nat.toDigits 10 m).length - 1 : Int) * 10 ^ e := zpow_add₀ hten _ _
      _ ≤ m * 10 ^ e := mul_le_mul_of_nonneg_right hlow he.le
  · split
    · next hsize =>
      refine rounds_zero negative ?_
      rw [abs_sign_mul, abs_of_pos (mul_pos (by positivity) he)]
      calc (m : ℚ) * 10 ^ e ≤ 10 ^ ((Nat.toDigits 10 m).length : Int) * 10 ^ e :=
            mul_le_mul_of_nonneg_right hhigh.le he.le
        _ = 10 ^ ((Nat.toDigits 10 m).length + e : Int) := (zpow_add₀ hten _ _).symm
        _ ≤ 10 ^ (-330 : Int) := zpow_le_zpow_right₀ (by norm_num) hsize.le
        _ ≤ 2 ^ minExponent / 2 := ten_zpow_le_half_min
    · split
      · next hneg =>
        obtain ⟨k, rfl⟩ : ∃ k : Nat, e = -(k : Int) := ⟨(-e).toNat, by omega⟩
        have h := rounds_ofRatio negative m (Nat.pow_pos (n := k) (show 0 < 10 by decide))
        rw [neg_neg, Int.toNat_natCast, zpow_neg, zpow_natCast, ← div_eq_mul_inv]
        exact_mod_cast h
      · next hnonneg =>
        obtain ⟨k, rfl⟩ : ∃ k : Nat, e = (k : Int) := ⟨e.toNat, by omega⟩
        have h := rounds_ofRatio negative (m * Nat.pow 10 k) Nat.one_pos
        rw [Int.toNat_natCast, zpow_natCast]
        rw [Nat.cast_one, div_one] at h
        exact_mod_cast h

/-! ## Whole numbers -/

/-- A finite double stands for a number. -/
theorem exists_toRat?_of_isFinite {d : Double} (h : d.isFinite = true) :
    ∃ v, d.toRat? = some v := by
  cases d with
  | finite negative m q => exact ⟨_, rfl⟩
  | infinite negative => cases h

/-- A number that is read as a finite double is not far beyond the greatest one. -/
theorem Rounds.abs_lt {x : ℚ} {d : Double} (hrounds : Rounds x d) (h : d.isFinite = true) :
    |x| < 10 ^ 311 := by
  obtain ⟨v, hv⟩ := exists_toRat?_of_isFinite h
  have herror : |x - v| ≤ |x| / 2 + 1 := by
    refine (hrounds.error v hv).trans (max_le ?_ ?_)
    · have hnonneg := abs_nonneg x
      linarith
    · have hhalf := half_min_lt_ten_zpow
      have hone : (10 : ℚ) ^ (-323 : Int) ≤ 1 := zpow_le_one_of_nonpos₀ (by norm_num) (by norm_num)
      have hnonneg := abs_nonneg x
      linarith
  have hvalue : |v| < 10 ^ (310 : Nat) :=
    (hrounds.nearest v hv).isDouble.abs_le.trans_lt max_lt_ten_zpow
  have htriangle := abs_sub_abs_le_abs_sub x v
  have hlarge : (1 : ℚ) ≤ 10 ^ 310 := one_le_pow₀ (by norm_num)
  rw [pow_succ]
  generalize (10 : ℚ) ^ 310 = bound at hvalue hlarge ⊢
  linarith

/-- A whole number with a finite double has at most 311 digits. -/
theorem natAbs_lt_of_isFinite {n : Int} (h : (ofInt n).isFinite = true) {digits : Nat}
    (hdigits : 311 ≤ digits) : n.natAbs < 10 ^ digits := by
  have hlt := (rounds_ofRatio (n < 0) n.natAbs Nat.one_pos).abs_lt h
  rw [abs_sign_mul, Nat.cast_one, div_one, Nat.abs_cast] at hlt
  have hpow : (10 : ℚ) ^ 311 ≤ 10 ^ digits := pow_le_pow_right₀ (by norm_num) hdigits
  exact_mod_cast hlt.trans_le hpow

/-- A signed number, as a rational. -/
theorem cast_signed (negative : Bool) (n : Nat) : (signed negative n : ℚ) = sign negative * n := by
  cases negative <;> simp [signed, sign]

/-- A sign does not change the absolute value of a whole number. -/
theorem signed_natAbs (negative : Bool) (n : Nat) : (signed negative n).natAbs = n := by
  cases negative <;> simp [signed]

/-- A double is the whole number that it stands for. -/
theorem toInt?_eq_some_iff {d : Double} {n : Int} :
    d.toInt? = some n ↔ d.toRat? = some (n : ℚ) := by
  have hcast : ∀ z : Int, some z = some n ↔ some (z : ℚ) = some (n : ℚ) := by simp
  cases d with
  | infinite negative => simp [toInt?, toRat?]
  | finite negative m q =>
    rw [toInt?, toRat?]
    split
    · next hneg =>
      obtain ⟨k, rfl⟩ : ∃ k : Nat, q = -(k : Int) := ⟨(-q).toNat, by omega⟩
      have hk : (2 : ℚ) ^ k ≠ 0 := by positivity
      rw [neg_neg, Int.toNat_natCast, Nat.pow_eq, zpow_neg, zpow_natCast]
      split
      · next hdvd =>
        obtain ⟨c, rfl⟩ := Nat.dvd_of_mod_eq_zero hdvd
        rw [Nat.mul_div_cancel_left c (Nat.two_pow_pos k), hcast, cast_signed]
        push_cast
        rw [mul_comm ((2 : ℚ) ^ k), mul_assoc, mul_inv_cancel₀ hk, mul_one]
      · next hdvd =>
        -- If the number were whole, the power of two would divide the mantissa.
        refine iff_of_false (Option.some_ne_none n).symm fun h => hdvd ?_
        have hwhole : signed negative m = n * 2 ^ k := by
          have hvalue := Option.some.inj h
          rw [← mul_assoc, ← cast_signed, ← div_eq_mul_inv, div_eq_iff hk] at hvalue
          exact_mod_cast hvalue
        have habs := congrArg Int.natAbs hwhole
        rw [signed_natAbs, Int.natAbs_mul, Int.natAbs_pow] at habs
        rw [habs]
        exact Nat.mul_mod_left _ _
    · next hneg =>
      obtain ⟨k, rfl⟩ : ∃ k : Nat, q = (k : Int) := ⟨q.toNat, by omega⟩
      rw [Int.toNat_natCast, hcast, cast_signed, zpow_natCast, Nat.pow_eq]
      push_cast
      rfl

end ShapedReply.Double
