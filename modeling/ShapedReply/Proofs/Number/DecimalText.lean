import ShapedReply.Proofs.Number.Rounding
import ShapedReply.Proofs.Reading.Number
import ShapedReply.Proofs.Schema.Walk

/-!
# Whole numbers from text

A text fits as a whole number if it is an integer literal, or a decimal literal whose double is
whole. Integer literals are read exactly. A decimal literal is rounded before it is asked whether it
is whole, so **a text fits as the double that is nearest to its exact value**
(`fit_text_as_integer`): a fraction beyond the precision of doubles is lost, and so are the last
digits of a large number. What is read is exact if the exact value is a double, or if the literal is
short.

* `Spells t s`: the grammar of decimal literals, and `decimal?_eq_some_iff`: the reader follows it.
* `Spelled.exactValue`: the number that a literal spells, before any rounding.
* `toInt?_toDouble_iff`: where reading is exact.
-/

namespace ShapedReply

namespace Literal

open Text Double Reader

/-! ## The grammar -/

/-- A row of digits of any script. -/
def IsRow (ds : Text) : Prop :=
  ∀ c ∈ ds, isDecimalDigit c = true

/-- An optional sign, and whether it is a minus. -/
inductive IsSign : Text → Bool → Prop
  | none : IsSign [] false
  | plus : IsSign ['+'] false
  | minus : IsSign ['-'] true

/-- An integer literal: an optional sign and digits. -/
inductive SpellsInteger : Text → Bool → Text → Prop
  | intro {sign ds : Text} {negative : Bool} :
    IsSign sign negative → ds ≠ [] → IsRow ds → SpellsInteger (sign ++ ds) negative ds

/-- An optional exponent. -/
inductive SpellsExponent : Text → Int → Prop
  | none : SpellsExponent [] 0
  | written {mark : Char} {t ds : Text} {negative : Bool} :
    mark = 'e' ∨ mark = 'E' → SpellsInteger t negative ds →
      SpellsExponent (mark :: t) (signed negative (digitsValue ds))

/-- A decimal literal: an optional sign, digits around an optional point, and an optional
exponent. -/
inductive Spells : Text → Spelled → Prop
  | whole {sign whole tail : Text} {negative : Bool} {e : Int} :
    IsSign sign negative → IsRow whole → whole ≠ [] → SpellsExponent tail e →
      Spells (sign ++ (whole ++ tail)) ⟨negative, whole, [], e⟩
  | pointed {sign whole part tail : Text} {negative : Bool} {e : Int} :
    IsSign sign negative → IsRow whole → IsRow part → whole ++ part ≠ [] → SpellsExponent tail e →
      Spells (sign ++ (whole ++ '.' :: (part ++ tail))) ⟨negative, whole, part, e⟩

/-- A text is an integer literal. -/
def IsInteger (t : Text) : Prop :=
  ∃ negative ds, SpellsInteger t negative ds

/-! ## The reader follows the grammar -/

/-- Takes a sign off a text that does not start with another one. -/
theorem IsSign.takeSign_append {sign r : Text} {negative : Bool} (h : IsSign sign negative)
    (hr : ∀ c ∈ r.head?, c ≠ '+' ∧ c ≠ '-') : takeSign (sign ++ r) = (negative, r) := by
  cases h with
  | plus | minus => rfl
  | none => exact Reader.takeSign_of_head hr

/-- What is taken off is a sign, or nothing. -/
theorem exists_isSign {t r : Text} {negative : Bool} (h : takeSign t = (negative, r)) :
    ∃ sign, IsSign sign negative ∧ t = sign ++ r := by
  unfold takeSign at h
  split at h <;> obtain ⟨rfl, rfl⟩ := Prod.mk.inj h
  · exact ⟨['-'], .minus, rfl⟩
  · exact ⟨['+'], .plus, rfl⟩
  · exact ⟨[], .none, rfl⟩

/-- Digits, and other characters than signs, do not start with a sign. -/
theorem IsRow.not_sign {ds r : Text} (h : IsRow ds) (hr : ∀ c ∈ r.head?, c ≠ '+' ∧ c ≠ '-') :
    ∀ c ∈ (ds ++ r).head?, c ≠ '+' ∧ c ≠ '-' := by
  cases ds with
  | nil => exact hr
  | cons d ds =>
    rintro c ⟨⟩
    have hd := h d List.mem_cons_self
    constructor <;> rintro rfl <;> exact absurd hd (by decide)

/-- A text reads as a whole number exactly if it spells one. -/
theorem integer?_eq_some_iff {t ds : Text} {negative : Bool} :
    integer? t = some (negative, ds) ↔ SpellsInteger t negative ds := by
  constructor
  · intro h
    unfold integer? at h
    split at h
    next htake =>
    split at h
    · next hdigits =>
      obtain ⟨rfl, rfl⟩ := Prod.mk.inj (Option.some.inj h)
      rw [Bool.and_eq_true, List.all_eq_true] at hdigits
      obtain ⟨sign, hsign, rfl⟩ := exists_isSign htake
      exact .intro hsign (by simpa using hdigits.1) hdigits.2
    · cases h
  · rintro ⟨hsign, hne, hrow⟩
    have hstart := hrow.not_sign (r := []) (by simp)
    rw [List.append_nil] at hstart
    unfold integer?
    rw [hsign.takeSign_append hstart]
    have hdigits : (!ds.isEmpty && ds.all isDecimalDigit) = true := by
      rw [Bool.and_eq_true, List.all_eq_true]
      exact ⟨by simpa using hne, hrow⟩
    exact if_pos hdigits

/-- A text reads as an exponent exactly if it spells one. -/
theorem exponent?_eq_some_iff {t : Text} {e : Int} : exponent? t = some e ↔ SpellsExponent t e := by
  constructor
  · intro h
    cases t with
    | nil =>
      obtain rfl := Option.some.inj h
      exact .none
    | cons c r =>
      rw [exponent?] at h
      split at h
      · next hmark =>
        obtain ⟨⟨negative, ds⟩, hinteger, rfl⟩ := Option.map_eq_some_iff.mp h
        exact .written (by simpa using hmark) (integer?_eq_some_iff.mp hinteger)
      · cases h
  · rintro (_ | ⟨hmark, hinteger⟩)
    · rfl
    · rw [exponent?, if_pos (by simpa using hmark), integer?_eq_some_iff.mpr hinteger]
      rfl

/-- An exponent starts with its mark. -/
theorem SpellsExponent.head {t : Text} {e : Int} (h : SpellsExponent t e) :
    ∀ c ∈ t.head?, isDecimalDigit c = false ∧ c ≠ '.' ∧ c ≠ '+' ∧ c ≠ '-' := by
  cases h with
  | none => simp
  | written hmark hinteger =>
    rintro c ⟨⟩
    rcases hmark with rfl | rfl <;> decide

section decimals

variable {t whole part rest : Text} {negative : Bool}

/-- Digits without a point. -/
theorem decimal?_whole (h : takeSign t = (negative, whole ++ rest)) (hwhole : IsRow whole)
    (hrest : ∀ c ∈ rest.head?, isDecimalDigit c = false ∧ c ≠ '.') :
    decimal? t = if whole = [] then none
      else (exponent? rest).map fun e => ⟨negative, whole, [], e⟩ := by
  obtain ⟨htake, hdrop⟩ := takeWhile_row whole hwhole fun c hc => (hrest c hc).1
  unfold decimal?
  rw [h]
  simp only [htake, hdrop]
  cases rest with
  | nil => simp
  | cons c rest =>
    have hpoint := (hrest c rfl).2
    split
    · next heq => exact absurd (List.cons.inj heq).1 hpoint
    · simp

/-- Digits around a point. -/
theorem decimal?_pointed (h : takeSign t = (negative, whole ++ '.' :: (part ++ rest)))
    (hwhole : IsRow whole) (hpart : IsRow part)
    (hrest : ∀ c ∈ rest.head?, isDecimalDigit c = false) :
    decimal? t =
      if whole ++ part = [] then none
      else (exponent? rest).map fun e => ⟨negative, whole, part, e⟩ := by
  obtain ⟨htake, hdrop⟩ := takeWhile_row (r := '.' :: (part ++ rest)) whole hwhole (by simp; decide)
  obtain ⟨htake', hdrop'⟩ := takeWhile_row part hpart hrest
  unfold decimal?
  rw [h]
  simp only [htake, hdrop, htake', hdrop']
  simp

end decimals

/-- A digit that is not taken does not follow. -/
theorem not_isDecimalDigit_of_dropWhile (r : Text) :
    ∀ c ∈ (r.dropWhile isDecimalDigit).head?, isDecimalDigit c = false := by
  intro c hc
  have hstop := List.head?_dropWhile_not isDecimalDigit r
  rw [Option.mem_def.mp hc] at hstop
  simpa using hstop

/-- **The reader of decimal literals follows their grammar.** -/
theorem decimal?_eq_some_iff {t : Text} {s : Spelled} : decimal? t = some s ↔ Spells t s := by
  have hrow : ∀ r : Text, IsRow (r.takeWhile isDecimalDigit) :=
    fun r c hc => List.all_eq_true.mp List.all_takeWhile c hc
  constructor
  · intro h
    obtain ⟨⟨negative, r⟩, hsign⟩ : ∃ p, takeSign t = p := ⟨_, rfl⟩
    obtain ⟨sign, hisSign, rfl⟩ := exists_isSign hsign
    have hstop := not_isDecimalDigit_of_dropWhile r
    rw [← List.takeWhile_append_dropWhile (p := isDecimalDigit) (l := r)] at hsign h ⊢
    generalize hwhole : r.takeWhile isDecimalDigit = whole at hsign h ⊢
    generalize r.dropWhile isDecimalDigit = rest at hsign h hstop ⊢
    replace hwhole : IsRow whole := hwhole ▸ hrow r
    by_cases hpoint : ∃ r, rest = '.' :: r
    · obtain ⟨r, rfl⟩ := hpoint
      have hstop := not_isDecimalDigit_of_dropWhile r
      have hpart := hrow r
      rw [← List.takeWhile_append_dropWhile (p := isDecimalDigit) (l := r)] at hsign h ⊢
      rw [decimal?_pointed hsign hwhole hpart hstop] at h
      split at h
      · cases h
      · next hne =>
        obtain ⟨e, he, rfl⟩ := Option.map_eq_some_iff.mp h
        exact .pointed hisSign hwhole hpart hne (exponent?_eq_some_iff.mp he)
    · have hrest : ∀ c ∈ rest.head?, isDecimalDigit c = false ∧ c ≠ '.' := by
        rintro c hc
        refine ⟨hstop c hc, ?_⟩
        rintro rfl
        exact hpoint (List.head?_eq_some_iff.mp hc)
      rw [decimal?_whole hsign hwhole hrest] at h
      split at h
      · cases h
      · next hne =>
        obtain ⟨e, he, rfl⟩ := Option.map_eq_some_iff.mp h
        exact .whole hisSign hwhole hne (exponent?_eq_some_iff.mp he)
  · intro h
    cases h with
    | whole hsign hwhole hne hexponent =>
      have hhead := hexponent.head
      have hstart := hwhole.not_sign fun c hc => (hhead c hc).2.2
      rw [decimal?_whole (hsign.takeSign_append hstart) hwhole
        fun c hc => ⟨(hhead c hc).1, (hhead c hc).2.1⟩, if_neg hne,
        exponent?_eq_some_iff.mpr hexponent]
      rfl
    | pointed hsign hwhole hpart hne hexponent =>
      rw [decimal?_pointed (hsign.takeSign_append (hwhole.not_sign (by simp))) hwhole hpart
        fun c hc => (hexponent.head c hc).1, if_neg hne, exponent?_eq_some_iff.mpr hexponent]
      rfl

/-- An integer literal is a decimal literal. -/
theorem SpellsInteger.spells {t ds : Text} {negative : Bool} (h : SpellsInteger t negative ds) :
    Spells t ⟨negative, ds, [], 0⟩ := by
  obtain ⟨hsign, hne, hrow⟩ := h
  have hspells := Spells.whole hsign hrow hne .none
  rwa [List.append_nil] at hspells

/-- A literal is spelled in one way. -/
theorem Spells.unique {t : Text} {s s' : Spelled} (h : Spells t s) (h' : Spells t s') : s = s' :=
  Option.some.inj ((decimal?_eq_some_iff.mpr h).symm.trans (decimal?_eq_some_iff.mpr h'))

/-! ## Exact values -/

/-- The number that a literal spells. -/
def Spelled.exactValue (s : Spelled) : ℚ :=
  sign s.negative * (digitsValue s.whole + digitsValue s.part / 10 ^ s.part.length) * 10 ^
    s.exponent

/-- The value of digits, with further digits behind them. -/
theorem digitsValue_append (ds es : Text) :
    digitsValue (ds ++ es) = digitsValue ds * 10 ^ es.length + digitsValue es := by
  have hfrom : ∀ (es : Text) (n : Nat), es.foldl (fun n c => 10 * n + (digitValue? c).getD 0) n =
      n * 10 ^ es.length + digitsValue es := by
    intro es
    induction es with
    | nil => simp [digitsValue]
    | cons e es ih =>
      intro n
      rw [digitsValue, List.foldl_cons, List.foldl_cons, ih, ih, List.length_cons, pow_succ]
      ring
  rw [digitsValue, List.foldl_append]
  exact hfrom es _

/-- The exact value is the mantissa at its scale. -/
theorem Spelled.exactValue_eq (s : Spelled) :
    s.exactValue = sign s.negative * (s.mantissa * 10 ^ s.scale) := by
  have hten : (10 : ℚ) ≠ 0 := by norm_num
  rw [exactValue, mantissa, scale, digitsValue_append, zpow_sub₀ hten, zpow_natCast]
  push_cast
  field_simp

/-- A literal is read as the double nearest to its exact value. -/
theorem Spelled.rounds_toDouble (s : Spelled) : Rounds s.exactValue s.toDouble := by
  rw [exactValue_eq]
  exact rounds_ofDecimal s.negative s.mantissa s.scale

/-- What spells a whole number spells it as a decimal, too. -/
theorem SpellsInteger.exactValue {t ds : Text} {negative : Bool} (h : SpellsInteger t negative ds)
    {s : Spelled} (hs : Spells t s) :
    s.whole = ds ∧ s.exactValue = signed negative (digitsValue ds) := by
  obtain rfl := hs.unique h.spells
  refine ⟨rfl, ?_⟩
  rw [Spelled.exactValue, cast_signed]
  simp [digitsValue]

/-- A literal is short: its digits are a number of 53 bits, up to 323 of them stand behind the
point, and no zeros are left out before it. -/
structure Spelled.IsShort (s : Spelled) : Prop where
  /-- The digits are a number of 53 bits. -/
  bits : s.mantissa < 2 ^ 53
  /-- No more than 323 digits stand behind the point. -/
  le_scale : -323 ≤ s.scale
  /-- No zeros are left out before the point. -/
  scale_le : s.scale ≤ 0

section exactness

variable {s : Spelled} {n : Int}

/-- The difference to a whole number, in units of the last digit. -/
theorem Spelled.exactValue_sub {k : Nat} (hk : s.scale = -(k : Int)) :
    s.exactValue - n = (signed s.negative s.mantissa - n * 10 ^ k : Int) * 10 ^ s.scale := by
  rw [Spelled.exactValue_eq, hk, zpow_neg, zpow_natCast]
  push_cast
  rw [cast_signed]
  field_simp

/-- A decimal with places behind the point is a whole number if its digits are a multiple. -/
theorem Spelled.exactValue_eq_iff {k : Nat} (hk : s.scale = -(k : Int)) :
    s.exactValue = n ↔ signed s.negative s.mantissa = n * 10 ^ k := by
  have hunit : (10 : ℚ) ^ s.scale ≠ 0 := (zpow_pos (by norm_num) _).ne'
  rw [← sub_eq_zero, exactValue_sub hk, mul_eq_zero, or_iff_left hunit, Int.cast_eq_zero,
    sub_eq_zero]

/-- A short literal is read as a whole number only if it is one: what it differs by from a whole
number is more than what rounding can add. -/
theorem Spelled.IsShort.exactValue_eq_of_toRat? (h : s.IsShort)
    (hn : s.toDouble.toRat? = some (n : ℚ)) :
    s.exactValue = n := by
  obtain ⟨k, hk⟩ : ∃ k : Nat, s.scale = -(k : Int) :=
    ⟨(-s.scale).toNat, by have := h.scale_le; omega⟩
  have hunit : (0 : ℚ) < 10 ^ s.scale := zpow_pos (by norm_num) _
  have hbits : (s.mantissa : ℚ) < 2 ^ 53 := by exact_mod_cast h.bits
  have hvalue : |s.exactValue| = s.mantissa * 10 ^ s.scale := by
    rw [Spelled.exactValue_eq, abs_sign_mul, abs_of_nonneg (by positivity)]
  have herror := s.rounds_toDouble.error n hn
  have hsmall : |s.exactValue - n| < 10 ^ s.scale := by
    refine herror.trans_lt (max_lt ?_ ?_)
    · rw [hvalue, div_lt_iff₀ (by norm_num), mul_comm]
      exact mul_lt_mul_of_pos_left hbits hunit
    · exact half_min_lt_ten_zpow.trans_le (zpow_le_zpow_right₀ (by norm_num) h.le_scale)
  -- In units of the last digit, the difference is a whole number below one.
  rw [Spelled.exactValue_sub hk, abs_mul, abs_of_pos hunit, mul_lt_iff_lt_one_left hunit] at hsmall
  have hzero : signed s.negative s.mantissa - n * 10 ^ k = 0 :=
    Int.abs_lt_one_iff.mp (by exact_mod_cast hsmall)
  exact (Spelled.exactValue_eq_iff hk).mpr (sub_eq_zero.mp hzero)

/-- A decimal without a large exponent is at most its digits. -/
theorem Spelled.IsShort.abs_le (h : s.IsShort) : |s.exactValue| ≤ s.mantissa := by
  rw [Spelled.exactValue_eq, abs_sign_mul, abs_of_nonneg (by positivity)]
  exact mul_le_of_le_one_right (by positivity) (zpow_le_one_of_nonpos₀ (by norm_num) h.scale_le)

/-- Whole numbers of at most 53 bits are doubles. -/
theorem isDouble_of_lt (hn : |n| < 2 ^ 53) : IsDouble n :=
  ⟨n, 0, hn, by decide, by decide, by rw [zpow_zero, mul_one]⟩

/-- **Where reading is exact**: if the exact value is a double, or the literal is short. -/
theorem toInt?_toDouble_iff (h : IsDouble s.exactValue ∨ s.IsShort) :
    s.toDouble.toInt? = some n ↔ s.exactValue = n := by
  have hround := s.rounds_toDouble
  rw [toInt?_eq_some_iff]
  constructor
  · intro hn
    rcases h with h | h
    · exact ((hround.nearest n hn).eq_of_isDouble h).symm
    · exact h.exactValue_eq_of_toRat? hn
  · intro hn
    have hdouble : IsDouble s.exactValue := by
      rcases h with h | h
      · exact h
      · have hlt : |(n : ℚ)| < 2 ^ 53 := by
          rw [← hn]
          exact h.abs_le.trans_lt (by exact_mod_cast h.bits)
        rw [hn]
        exact isDouble_of_lt (by exact_mod_cast hlt)
    obtain ⟨v, hv⟩ := hround.finite hdouble.abs_le
    rw [hv, (hround.nearest v hv).eq_of_isDouble hdouble, hn]

end exactness

end Literal

/-! ## Fitting -/

namespace Fit

open Text Literal Double

variable {resolve : Resolver} {t : String}

/-- A text fits as the whole number that it is read as. -/
theorem fit_text_eq_ok_iff {n : Int} :
    fit resolve (.str t) .int = .ok (.int n) ↔ integerOfText (trim t.toList) = .ok (some n) := by
  rw [fit_eq, fitNode, toInt]
  rcases integerOfText (trim t.toList) with e | _ | m
  · exact iff_of_false (by rintro ⟨⟩) (by rintro ⟨⟩)
  · exact iff_of_false (by rintro ⟨⟩) (by rintro ⟨⟩)
  · constructor
    · rintro ⟨⟩
      rfl
    · rintro ⟨⟩
      rfl

/-- A text that is read as no whole number does not fit. -/
theorem fit_text_eq_misfit (h : integerOfText (trim t.toList) = .ok none) :
    fit resolve (.str t) .int = .error (misfit .int (.str t)) := by
  rw [fit_eq, fitNode, toInt, h]
  rfl

/-- What spells a whole number is that number, within the limit on its digits. -/
theorem integerOfText_of_spellsInteger {t ds : Text} {negative : Bool}
    (h : SpellsInteger t negative ds) :
    integerOfText t = if ds.length > maxIntegerDigits then .error (.integerTooLong ds.length)
      else .ok (some (signed negative (digitsValue ds))) := by
  rw [integerOfText, integer?_eq_some_iff.mpr h]

/-- What spells no whole number goes through a double. -/
theorem integerOfText_of_not_isInteger {t : Text} (h : ¬ IsInteger t) :
    integerOfText t = .ok ((decimal? t).bind (·.toDouble.toInt?)) := by
  rw [integerOfText]
  split
  · next hinteger => exact absurd ⟨_, _, integer?_eq_some_iff.mp hinteger⟩ h
  · rfl

/-- **A text fits as the whole number nearest to its exact value.** It is a decimal literal. An
integer literal fits exactly. Any other literal fits as the double nearest to it, if that double is
whole; it fits exactly, or not at all, if its exact value is a double or the literal is short. -/
theorem fit_text_as_integer (resolve : Resolver) (t : String) :
    (∀ n, fit resolve (.str t) .int = .ok (.int n) →
      ∃ s, Spells (trim t.toList) s ∧ (IsInteger (trim t.toList) → s.exactValue = n) ∧
        (¬ IsInteger (trim t.toList) → IsNearest s.exactValue n)) ∧
    (∀ s, Spells (trim t.toList) s → IsInteger (trim t.toList) → s.whole.length ≤ maxIntegerDigits →
      ∃ n : Int, fit resolve (.str t) .int = .ok (.int n) ∧ s.exactValue = n) ∧
    ∀ s, Spells (trim t.toList) s → ¬ IsInteger (trim t.toList) →
      IsDouble s.exactValue ∨ s.IsShort →
      (∀ n : Int, fit resolve (.str t) .int = .ok (.int n) ↔ s.exactValue = n) ∧
        ((∀ n : Int, s.exactValue ≠ n) →
          fit resolve (.str t) .int = .error (misfit .int (.str t))) := by
  simp only [fit_text_eq_ok_iff]
  refine ⟨fun n hn => ?_, fun s hs hinteger hlength => ?_, fun s hs hinteger hexact => ?_⟩
  · by_cases hinteger : IsInteger (trim t.toList)
    · obtain ⟨negative, ds, h⟩ := hinteger
      refine ⟨_, h.spells, fun _ => ?_, fun hnot => absurd ⟨_, _, h⟩ hnot⟩
      rw [integerOfText_of_spellsInteger h] at hn
      split at hn
      · cases hn
      · obtain rfl := Option.some.inj (Except.ok.inj hn)
        exact (h.exactValue h.spells).2
    · rw [integerOfText_of_not_isInteger hinteger, Except.ok.injEq, Option.bind_eq_some_iff] at hn
      obtain ⟨s, hs, hn⟩ := hn
      refine ⟨s, decimal?_eq_some_iff.mp hs, fun h => absurd h hinteger, fun _ => ?_⟩
      exact s.rounds_toDouble.nearest n (toInt?_eq_some_iff.mp hn)
  · obtain ⟨negative, ds, h⟩ := hinteger
    obtain ⟨rfl, hvalue⟩ := h.exactValue hs
    refine ⟨_, ?_, hvalue⟩
    rw [integerOfText_of_spellsInteger h, if_neg (not_lt.mpr hlength)]
  · have hread : integerOfText (trim t.toList) = .ok s.toDouble.toInt? := by
      rw [integerOfText_of_not_isInteger hinteger, decimal?_eq_some_iff.mpr hs]
      rfl
    constructor
    · intro n
      rw [hread, Except.ok.injEq, toInt?_toDouble_iff hexact]
    · intro hne
      refine fit_text_eq_misfit (hread.trans (congrArg Except.ok ?_))
      rw [Option.eq_none_iff_forall_ne_some]
      exact fun n hn => hne n ((toInt?_toDouble_iff hexact).mp hn)

/-- A literal with a fraction in tenths does not fit. -/
theorem fit_text_as_integer_tenths :
    let s : Spelled := ⟨true, ['1', '2'], ['3'], 0⟩
    Spells (trim " -12.3 ".toList) s ∧ ¬ IsInteger (trim " -12.3 ".toList) ∧ s.IsShort ∧
      fit (fun _ => none) (.str " -12.3 ") .int = .error (misfit .int (.str " -12.3 ")) := by
  intro s
  have hs : Spells (trim " -12.3 ".toList) s := decimal?_eq_some_iff.mp rfl
  have hinteger : ¬ IsInteger (trim " -12.3 ".toList) := by
    rintro ⟨negative, ds, h⟩
    have hnone : integer? (trim " -12.3 ".toList) = none := by decide +kernel
    exact absurd ((integer?_eq_some_iff.mpr h).symm.trans hnone) (Option.some_ne_none _)
  have hshort : s.IsShort := ⟨by decide +kernel, by decide, by decide⟩
  have hvalue : ∀ n : Int, s.exactValue ≠ n := by
    have hdigits : signed s.negative s.mantissa = -123 := by decide +kernel
    intro n h
    rw [Spelled.exactValue_eq_iff (k := 1) rfl, hdigits] at h
    omega
  exact ⟨hs, hinteger, hshort, ((fit_text_as_integer _ _).2.2 s hs hinteger (.inr hshort)).2 hvalue⟩

/-- Rounding hides a fraction, and changes the last digit of a large number. -/
theorem fit_text_as_integer_rounded :
    (∃ s, Spells (trim "1.00000000000000000001".toList) s ∧ (∀ n : Int, s.exactValue ≠ n) ∧
      fit (fun _ => none) (.str "1.00000000000000000001") .int = .ok (.int 1)) ∧
    ∃ s, Spells (trim "9007199254740993.0".toList) s ∧ s.exactValue = (9007199254740993 : Int) ∧
      fit (fun _ => none) (.str "9007199254740993.0") .int = .ok (.int 9007199254740992) := by
  let s : Spelled := ⟨false, ['1'], "00000000000000000001".toList, 0⟩
  let s' : Spelled := ⟨false, "9007199254740993".toList, ['0'], 0⟩
  have hdigits : signed s.negative s.mantissa = 100000000000000000001 := by decide +kernel
  have hdigits' : signed s'.negative s'.mantissa = 90071992547409930 := by decide +kernel
  refine ⟨⟨s, decimal?_eq_some_iff.mp rfl, ?_, fit_text_eq_ok_iff.mpr (by decide +kernel)⟩,
    s', decimal?_eq_some_iff.mp rfl, ?_, fit_text_eq_ok_iff.mpr (by decide +kernel)⟩
  · intro n h
    rw [Spelled.exactValue_eq_iff (k := 20) rfl, hdigits] at h
    omega
  · rw [Spelled.exactValue_eq_iff (k := 1) rfl, hdigits']
    rfl

end Fit

end ShapedReply
