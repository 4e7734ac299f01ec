import ShapedReply.Proofs.Mending.Strings
import ShapedReply.Value.Writer

/-!
# Written strings

A string is written character by character and read unit by unit, in either style: **a written
string reads as itself** (`string_written`). In ASCII style a character beyond the basic plane is
written as the two halves of a surrogate pair, and a stand-in as the half that it stands for; so two
stand-ins that make a pair are written as the character that they would spell, and the statement
asks that the halves in the string stand apart (`Surrogate.areApart`). About the characters that
serve as stand-ins, U+105800 to U+105FFF, nothing is said: a string that has one of them counts as a
string with the half, and is written and read back so.
-/

namespace ShapedReply

open Text Reader Spelling

/-! ## Units -/

/-- Whether no stand-in of a first half stands directly before one of a second half. -/
def Surrogate.areApart : List Char → Bool
  | a :: b :: r => !((half? a).any isHigh && (half? b).any isLow) && areApart (b :: r)
  | _ => true

/-- The code units that a character is escaped as: one, or a surrogate pair. -/
def escapedUnits (c : Char) : List Nat :=
  let n := (Surrogate.half? c).getD c.toNat
  if n < 0x10000 then [n] else [0xD800 + (n - 0x10000) / 0x400, 0xDC00 + (n - 0x10000) % 0x400]

/-- The code units that a character is written as. -/
def writtenUnits (style : WriteStyle) (c : Char) : List Nat :=
  if style.ascii && 0x7E < c.toNat then escapedUnits c else [c.toNat]

/-- A character is never half of a surrogate pair. -/
theorem isHalf_toNat (c : Char) : Surrogate.isHalf c.toNat = false := by
  have hvalid : c.toNat < 0xD800 ∨ 0xDFFF < c.toNat := c.valid.imp id And.left
  simp only [Surrogate.isHalf, Bool.and_eq_false_iff, decide_eq_false_iff_not]
  omega

/-- Codes of characters end with the last plane. -/
theorem toNat_lt (c : Char) : c.toNat < 0x110000 := by
  rcases c.valid with h | ⟨-, h⟩
  · exact Nat.lt_trans h (by decide)
  · exact h

/-- What a character stands in for, by its code. -/
theorem half?_eq_some_iff {c : Char} {u : Nat} :
    Surrogate.half? c = some u ↔ c.toNat = Surrogate.distance + u ∧ Surrogate.isHalf u = true := by
  rw [Surrogate.half?]
  constructor
  · intro h
    split at h
    · next hhalf =>
      obtain rfl := Option.some.inj h
      refine ⟨?_, hhalf⟩
      rcases Nat.le_total Surrogate.distance c.toNat with hle | hle
      · exact (Nat.add_sub_cancel' hle).symm
      · rw [Nat.sub_eq_zero_of_le hle] at hhalf
        cases hhalf
    · cases h
  · rintro ⟨hcode, hhalf⟩
    rw [hcode, Nat.add_sub_cancel_left, if_pos hhalf]

/-- A character is written as one unit, which spells it, or as the two halves of the pair that
does. -/
theorem writtenUnits_cases (style : WriteStyle) (c : Char) :
    (∃ u, writtenUnits style c = [u] ∧ unitChar u = c ∧
      (Surrogate.isHalf u = true → style.ascii = true ∧ Surrogate.half? c = some u)) ∨
    ∃ high low, writtenUnits style c = [high, low] ∧ Surrogate.isHigh high = true ∧
      Surrogate.isLow low = true ∧ Surrogate.join high low = c := by
  have hself : unitChar c.toNat = c := by
    rw [unitChar, isHalf_toNat, if_neg Bool.false_ne_true, Char.ofNat_toNat]
  have hplain {P : Prop} (h : Surrogate.isHalf c.toNat = true) : P := by
    rw [isHalf_toNat] at h
    cases h
  rw [writtenUnits]
  split
  · next hescaped =>
    rw [Bool.and_eq_true] at hescaped
    rcases hhalf : Surrogate.half? c with _ | u
    · rw [escapedUnits, hhalf, Option.getD_none]
      split
      · exact .inl ⟨c.toNat, rfl, hself, hplain⟩
      · next hlarge =>
        have hbound : c.toNat < 0x110000 := toNat_lt c
        refine .inr ⟨_, _, rfl, ?_, ?_, ?_⟩
        · simp only [Surrogate.isHigh, Bool.and_eq_true, decide_eq_true_eq]
          omega
        · simp only [Surrogate.isLow, Bool.and_eq_true, decide_eq_true_eq]
          omega
        · have hcode : 0x10000 + (0xD800 + (c.toNat - 0x10000) / 0x400 - 0xD800) * 0x400 +
              (0xDC00 + (c.toNat - 0x10000) % 0x400 - 0xDC00) = c.toNat := by omega
          rw [Surrogate.join, hcode, Char.ofNat_toNat]
    · obtain ⟨hcode, hu⟩ := half?_eq_some_iff.mp hhalf
      have hsmall : u < 0x10000 := by
        simp only [Surrogate.isHalf, Bool.and_eq_true, decide_eq_true_eq] at hu
        omega
      rw [escapedUnits, hhalf, Option.getD_some, if_pos hsmall]
      refine .inl ⟨u, rfl, ?_, fun _ => ⟨hescaped.1, rfl⟩⟩
      rw [unitChar, if_pos hu, Surrogate.standIn, ← hcode, Char.ofNat_toNat]
  · exact .inl ⟨c.toNat, rfl, hself, hplain⟩

/-- A unit that does not start a pair is a character of its own. -/
theorem joinUnits_cons {u : Nat} {us : List Nat}
    (h : Surrogate.isHigh u = true → ∀ l ∈ us.head?, Surrogate.isLow l = false) :
    joinUnits (u :: us) = unitChar u :: joinUnits us := by
  cases us with
  | nil => rfl
  | cons l us =>
    have hpair : (Surrogate.isHigh u && Surrogate.isLow l) = false := by
      rcases hhigh : Surrogate.isHigh u
      · rfl
      · exact h hhigh l rfl
    rw [joinUnits, hpair]
    rfl

/-- A first half is a half. -/
theorem isHalf_of_isHigh {u : Nat} (h : Surrogate.isHigh u = true) : Surrogate.isHalf u = true := by
  simp only [Surrogate.isHigh, Surrogate.isHalf, Bool.and_eq_true, decide_eq_true_eq] at h ⊢
  omega

/-- A second half is a half. -/
theorem isHalf_of_isLow {u : Nat} (h : Surrogate.isLow u = true) : Surrogate.isHalf u = true := by
  simp only [Surrogate.isLow, Surrogate.isHalf, Bool.and_eq_true, decide_eq_true_eq] at h ⊢
  omega

/-- A first half is no second half. -/
theorem isLow_of_isHigh {u : Nat} (h : Surrogate.isHigh u = true) : Surrogate.isLow u = false := by
  simp only [Surrogate.isHigh, Surrogate.isLow, Bool.and_eq_true, Bool.and_eq_false_iff,
    decide_eq_true_eq, decide_eq_false_iff_not] at h ⊢
  omega

/-- The units that a string is written as spell it. -/
theorem joinUnits_written {style : WriteStyle} {cs : List Char}
    (h : style.ascii = true → Surrogate.areApart cs = true) :
    joinUnits (cs.flatMap (writtenUnits style)) = cs := by
  induction cs with
  | nil => rfl
  | cons c cs ih =>
    have hrest : joinUnits (cs.flatMap (writtenUnits style)) = cs := by
      apply ih
      intro hascii
      have hapart := h hascii
      cases cs with
      | nil => rfl
      | cons d ds =>
        rw [Surrogate.areApart, Bool.and_eq_true] at hapart
        exact hapart.2
    rw [List.flatMap_cons]
    rcases writtenUnits_cases style c with
      ⟨u, hu, hchar, hhalf⟩ | ⟨high, low, hpair, hhigh, hlow, hjoin⟩
    · rw [hu, List.singleton_append, joinUnits_cons, hchar, hrest]
      -- A first half on its own is a stand-in, and no stand-in of a second half follows it.
      intro hhigh l hl
      obtain ⟨hascii, hc⟩ := hhalf (isHalf_of_isHigh hhigh)
      cases cs with
      | nil => cases hl
      | cons d ds =>
        rw [List.flatMap_cons] at hl
        rcases writtenUnits_cases style d with
          ⟨u', hu', -, hhalf'⟩ | ⟨high', low', hpair', hhigh', -⟩
        · rw [hu'] at hl
          obtain rfl : u' = l := by simpa using hl
          rcases hlow : Surrogate.isLow u'
          · rfl
          · obtain ⟨-, hd⟩ := hhalf' (isHalf_of_isLow hlow)
            have hapart := h hascii
            rw [Surrogate.areApart, hc, hd, Option.any_some, Option.any_some, hhigh, hlow] at hapart
            cases hapart
        · rw [hpair'] at hl
          obtain rfl : high' = l := by simpa using hl
          exact isLow_of_isHigh hhigh'
    · rw [hpair]
      show joinUnits (high :: low :: cs.flatMap (writtenUnits style)) = c :: cs
      rw [joinUnits, hhigh, hlow, Bool.and_self, if_pos rfl, hjoin, hrest]

/-! ## Glyphs -/

/-- A digit in base sixteen has the value that it is written for. -/
theorem hexValue?_hexDigit : ∀ n < 16, hexValue? (Writer.hexDigit n) = some n := by
  decide

/-- The escape of a unit is a glyph. -/
theorem exists_glyph_unitEscape {u : Nat} (hu : u < 0x10000) :
    ∃ g : Glyph, Writer.unitEscape u = g.strict ∧ g.codeUnit = u := by
  have hdigit (n : Nat) : hexValue? (Writer.hexDigit (n % 16)) = some (n % 16) :=
    hexValue?_hexDigit _ (Nat.mod_lt _ (by decide))
  have hunit : hexUnit? (Writer.hexDigit (u / 0x1000 % 16)) (Writer.hexDigit (u / 0x100 % 16))
      (Writer.hexDigit (u / 0x10 % 16)) (Writer.hexDigit (u % 16)) = some u := by
    simp only [hexUnit?, hdigit, Option.bind_eq_bind, Option.bind_some, Option.pure_def,
      Option.some.injEq]
    omega
  exact ⟨.unit _ _ _ _ u hunit, rfl, rfl⟩

/-- An escaped character is one glyph, or two for a pair. -/
theorem exists_glyphs_charEscape (c : Char) :
    ∃ gs : List Glyph, Writer.charEscape c = gs.flatMap Glyph.strict ∧
      gs.map Glyph.codeUnit = escapedUnits c := by
  have hbound : (Surrogate.half? c).getD c.toNat < 0x110000 := by
    have hchar : c.toNat < 0x110000 := toNat_lt c
    rcases hhalf : Surrogate.half? c with _ | u
    · exact hchar
    · have hcode := (half?_eq_some_iff.mp hhalf).1
      rw [Option.getD_some]
      omega
  rw [Writer.charEscape, escapedUnits]
  generalize (Surrogate.half? c).getD c.toNat = n at hbound ⊢
  split
  · next hsmall =>
    obtain ⟨g, hg, hunit⟩ := exists_glyph_unitEscape hsmall
    exact ⟨[g], by simp [hg], by simp [hunit]⟩
  · obtain ⟨g, hg, hunit⟩ := exists_glyph_unitEscape (u := 0xD800 + (n - 0x10000) / 0x400)
      (by omega)
    obtain ⟨g', hg', hunit'⟩ := exists_glyph_unitEscape (u := 0xDC00 + (n - 0x10000) % 0x400)
      (by omega)
    exact ⟨[g, g'], by simp [hg, hg'], by simp [hunit, hunit']⟩

/-- A character is written as glyphs. -/
theorem exists_glyphs_char (style : WriteStyle) (c : Char) :
    ∃ gs : List Glyph, Writer.char style c = gs.flatMap Glyph.strict ∧
      gs.map Glyph.codeUnit = writtenUnits style c := by
  unfold Writer.char
  split
  · exact ⟨[.escape '"' '"' rfl], rfl, by simp [writtenUnits, Glyph.codeUnit]⟩
  · exact ⟨[.escape '\\' '\\' rfl], rfl, by simp [writtenUnits, Glyph.codeUnit]⟩
  · exact ⟨[.escape 'n' '\n' rfl], rfl, by simp [writtenUnits, Glyph.codeUnit]⟩
  · exact ⟨[.escape 'r' '\r' rfl], rfl, by simp [writtenUnits, Glyph.codeUnit]⟩
  · exact ⟨[.escape 't' '\t' rfl], rfl, by simp [writtenUnits, Glyph.codeUnit]⟩
  · exact ⟨[.escape 'f' '\x0c' rfl], rfl, by simp [writtenUnits, Glyph.codeUnit]⟩
  · exact ⟨[.escape 'b' '\x08' rfl], rfl, by simp [writtenUnits, Glyph.codeUnit]⟩
  · next hquote hslash _ _ _ _ _ =>
    rw [writtenUnits]
    by_cases hascii : (style.ascii && decide (0x7E < c.toNat)) = true
    · rw [if_pos hascii, if_pos (by simp [hascii])]
      exact exists_glyphs_charEscape c
    · rw [if_neg hascii]
      by_cases hcontrol : c.toNat < 0x20
      · have hnone : Surrogate.half? c = none := by
          rw [Surrogate.half?, Nat.sub_eq_zero_of_le (by simp only [Surrogate.distance]; omega)]
          rfl
        have hunits : escapedUnits c = [c.toNat] := by
          rw [escapedUnits, hnone, Option.getD_none, if_pos (by omega)]
        rw [if_pos (by simp [hcontrol]), ← hunits]
        exact exists_glyphs_charEscape c
      · rw [if_neg (by simp [hcontrol, hascii])]
        exact ⟨[.plain c ⟨by omega, hquote, hslash⟩], rfl, rfl⟩

/-- A string is written as glyphs. -/
theorem exists_glyphs_written (style : WriteStyle) (cs : List Char) :
    ∃ gs : List Glyph, cs.flatMap (Writer.char style) = gs.flatMap Glyph.strict ∧
      gs.map Glyph.codeUnit = cs.flatMap (writtenUnits style) := by
  induction cs with
  | nil => exact ⟨[], rfl, rfl⟩
  | cons c cs ih =>
    obtain ⟨gs, htext, hunits⟩ := ih
    obtain ⟨hs, hchar, hcode⟩ := exists_glyphs_char style c
    refine ⟨hs ++ gs, ?_, ?_⟩
    · rw [List.flatMap_cons, List.flatMap_append, htext, hchar]
    · rw [List.flatMap_cons, List.map_append, hunits, hcode]

/-- **A written string reads as itself.** -/
theorem string_written {style : WriteStyle} {s : String}
    (h : style.ascii = true → Surrogate.areApart s.toList = true) (r : Text) :
    Reader.string (s.toList.flatMap (Writer.char style) ++ '"' :: r) = .ok (s, r) := by
  obtain ⟨gs, htext, hunits⟩ := exists_glyphs_written style s.toList
  have hread : String.ofList (joinUnits (s.toList.flatMap (writtenUnits style))) = s := by
    rw [joinUnits_written h, String.ofList_toList]
  rw [Reader.string, htext, units_flatMap (fun g _ => spellsUnit_strict g) r, hunits]
  exact congrArg (fun t => Except.ok (t, r)) hread

/-- The inside of a written string is sealed. -/
theorem sealed_written (style : WriteStyle) (s : String) :
    Sealed '"' (s.toList.flatMap (Writer.char style)) := by
  obtain ⟨gs, htext, -⟩ := exists_glyphs_written style s.toList
  rw [htext]
  apply Sealed.flatMap
  intro g _
  have hsealed := sealed_text (q := '"') rfl false g false
  rwa [Glyph.text_strict] at hsealed

end ShapedReply
