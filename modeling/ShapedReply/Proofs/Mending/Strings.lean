import ShapedReply.Proofs.Loose.Scanning
import ShapedReply.Proofs.Reading.Tree

/-!
# Strings under mending

What mending does to a string is decided glyph by glyph, since a stage that works inside literals
works character by character or two characters at a time.

* `sealed_text`: a glyph never closes the literal it stands in, so a string is one literal for every
  stage (`sealed_looseBody`).
* `requoteBody_looseBody`: the text of a string in single quotes becomes its text in double quotes.
* `flatMap_escapeControl_looseBody`: its raw control characters become escapes.
* `legible_clean`: **the pen without relaxations is legible.**
-/

namespace ShapedReply

open Text Reader Spelling

/-! ## The characters of glyphs -/

/-- The hexadecimal digits. -/
def hexDigits : List Char := digits ++ ['a', 'b', 'c', 'd', 'e', 'f', 'A', 'B', 'C', 'D', 'E', 'F']

/-- The letters behind a backslash. -/
def escapeLetters : List Char := ['"', '\\', '/', 'b', 'f', 'n', 'r', 't']

/-- What has a value in base sixteen is one of its digits. -/
theorem mem_hexDigits {c : Char} {n : Nat} (h : hexValue? c = some n) : c ∈ hexDigits := by
  have hlt : c.toNat < 128 := by
    have hle : c ≤ 'f' ∨ c ≤ '9' ∨ c ≤ 'F' := by
      unfold hexValue? at h
      split at h
      · next hc => exact .inr (.inl hc.2)
      · split at h
        · next hc => exact .inl hc.2
        · split at h
          · next hc => exact .inr (.inr hc.2)
          · cases h
    rcases hle with hle | hle | hle
    all_goals
      have := UInt32.le_iff_toNat_le.mp (Char.le_def.mp hle)
      exact Nat.lt_of_le_of_lt this (by decide)
  refine forall_of_toNat_lt (P := fun c => (hexValue? c).isSome = true → c ∈ hexDigits)
    (by decide) c
    hlt ?_
  rw [h]
  rfl

/-- The four characters of a code unit are digits in base sixteen. -/
theorem mem_hexDigits_of_unit {a b c d : Char} {u : Nat} (h : hexUnit? a b c d = some u) :
    ∀ x ∈ [a, b, c, d], x ∈ hexDigits := by
  simp only [hexUnit?, Option.bind_eq_bind, Option.bind_eq_some_iff] at h
  obtain ⟨_, ha, _, hb, _, hc, _, hd, -⟩ := h
  simp only [List.forall_mem_cons]
  exact ⟨mem_hexDigits ha, mem_hexDigits hb, mem_hexDigits hc, mem_hexDigits hd, by simp⟩

/-- What is a simple escape is one of the letters. -/
theorem mem_escapeLetters {c e : Char} (h : simpleEscape? c = some e) : c ∈ escapeLetters := by
  unfold simpleEscape? at h
  split at h
  case h_9 => cases h
  all_goals decide

/-- What is spelled with a backslash: the backslash, a letter, and hexadecimal digits. -/
theorem strict_eq_backslash (g : Glyph) (hg : ∀ c h, g ≠ .plain c h) :
    ∃ d hex, g.strict = '\\' :: d :: hex ∧ d ∈ 'u' :: escapeLetters ∧ ∀ x ∈ hex, x ∈ hexDigits := by
  cases g with
  | plain c h => exact absurd rfl (hg c h)
  | escape c e h => exact ⟨c, [], rfl, List.mem_cons_of_mem _ (mem_escapeLetters h), by simp⟩
  | unit a b c d u h => exact ⟨'u', [a, b, c, d], rfl, List.mem_cons_self, mem_hexDigits_of_unit h⟩

/-- Small codes are codes of characters. -/
theorem toNat_ofNat_of_lt (n : Nat) (h : n < 0xA0) : (Char.ofNat n).toNat = n := by
  have hvalid : n.isValidChar := .inl (by omega)
  rw [Char.ofNat, dif_pos hvalid]
  rfl

/-- The raw character of a glyph is the control character that the glyph spells. -/
theorem raw?_eq_some {g : Glyph} {c : Char} (h : g.raw? = some c) :
    Glyph.isControl c.toNat = true ∧ c ≠ '\r' ∧ g.codeUnit = c.toNat := by
  cases g with
  | plain c h' => cases h
  | escape d e he =>
    simp only [Glyph.raw?] at h
    split at h
    · next hd =>
      cases h
      rcases hd with rfl | rfl
      · cases he
        exact ⟨rfl, by decide, rfl⟩
      · cases he
        exact ⟨rfl, by decide, rfl⟩
    · cases h
  | unit a b d e u hu =>
    simp only [Glyph.raw?] at h
    split at h
    · next hcontrol =>
      cases h
      simp only [Bool.and_eq_true, bne_iff_ne] at hcontrol
      have hlt : u < 0xA0 := by
        have := hcontrol.1
        simp only [Glyph.isControl, Bool.or_eq_true, Bool.and_eq_true, decide_eq_true_eq] at this
        omega
      have htoNat : (Char.ofNat u).toNat = u := toNat_ofNat_of_lt u hlt
      refine ⟨by rw [htoNat]; exact hcontrol.1, ?_, by rw [htoNat]; rfl⟩
      intro hreturn
      rw [hreturn] at htoNat
      exact hcontrol.2 htoNat.symm
    · cases h

/-- A control character is no backslash, no quote and no letter of an escape. -/
theorem ne_of_isControl {c : Char} (h : Glyph.isControl c.toNat = true) :
    c ≠ '\\' ∧ c ≠ '"' ∧ c ≠ '\'' := by
  refine ⟨?_, ?_, ?_⟩
  · rintro rfl
    exact absurd h (by decide)
  · rintro rfl
    exact absurd h (by decide)
  · rintro rfl
    exact absurd h (by decide)

/-! ## The spellings of a glyph -/

/-- A plain character has a backslash only if it is an apostrophe in single quotes. -/
theorem text_plain (q : Char) (raw bare : Bool) {c : Char}
    (h : 0x20 ≤ c.toNat ∧ c ≠ '"' ∧ c ≠ '\\') :
    Glyph.text q raw (.plain c h) bare = if c = '\'' && q = '\'' then ['\\', c] else [c] := rfl

/-- Other glyphs are spelled in one of two ways, in all literals alike: as a control character that
is raw or escaped, or as strict text has it. Only a double quote in single quotes may go without its
backslash. -/
theorem text_of_ne_plain {g : Glyph} (hg : ∀ c h, g ≠ .plain c h) (bare : Bool) :
    (∃ c, g.raw? = some c ∧ ∀ q raw, g.text q raw bare =
      if raw then [c] else Mend.escapeControl c) ∨
    ∀ q raw, g.text q raw bare =
      if bare && (q = '\'' && g.strict = ['\\', '"']) then ['"'] else g.strict := by
  have htext : ∀ q raw, g.text q raw bare =
      if bare then
        g.raw?.elim (if q = '\'' && g.strict = ['\\', '"'] then ['"'] else g.strict) fun c =>
          if raw then [c] else Mend.escapeControl c
      else g.strict := by
    intro q raw
    cases g with
    | plain c h => exact absurd rfl (hg c h)
    | escape c e h =>
      simp only [Glyph.text]
      rcases (Glyph.escape c e h).raw? with _ | _ <;> rfl
    | unit a b c d u h =>
      simp only [Glyph.text]
      rcases (Glyph.unit a b c d u h).raw? with _ | _ <;> rfl
  cases bare with
  | false => exact .inr fun q raw => htext q raw
  | true =>
    rcases hraw : g.raw? with _ | c
    · right
      intro q raw
      rw [htext, if_pos rfl, hraw]
      rfl
    · left
      refine ⟨c, rfl, fun q raw => ?_⟩
      rw [htext, if_pos rfl, hraw, Option.elim_some]

/-- A control character that is escaped as mending escapes it. -/
theorem escapeControl_cases {c : Char} (hc : c ≠ '\r') :
    Mend.escapeControl c = ['\\', 'n'] ∧ c = '\n' ∨ Mend.escapeControl c = ['\\', 't'] ∧ c = '\t' ∨
      Mend.escapeControl c = Writer.unitEscape c.toNat ∧ c.toNat < 0x20 ∨
      Mend.escapeControl c = [c] ∧ 0x20 ≤ c.toNat := by
  unfold Mend.escapeControl
  by_cases hfeed : c = '\n'
  · exact .inl ⟨if_pos hfeed, hfeed⟩
  by_cases htab : c = '\t'
  · exact .inr (.inl ⟨by rw [if_neg hfeed, if_pos htab], htab⟩)
  rw [if_neg hfeed, if_neg htab, if_neg hc]
  by_cases hlow : c.toNat < 0x20
  · exact .inr (.inr (.inl ⟨if_pos hlow, hlow⟩))
  · exact .inr (.inr (.inr ⟨if_neg hlow, by omega⟩))

/-- A character that no literal needs to escape. -/
theorem escapeControl_of_le {c : Char} (h : 0x20 ≤ c.toNat) : Mend.escapeControl c = [c] := by
  have hne : c ≠ '\n' ∧ c ≠ '\t' ∧ c ≠ '\r' := by
    refine ⟨?_, ?_, ?_⟩
    · rintro rfl
      exact absurd h (by decide)
    · rintro rfl
      exact absurd h (by decide)
    · rintro rfl
      exact absurd h (by decide)
  rw [Mend.escapeControl, if_neg hne.1, if_neg hne.2.1, if_neg hne.2.2, if_neg (by omega)]

/-- The digits of an escape that mending writes. -/
theorem unitEscape_eq : ∀ n < 0x20, ∃ a b c d, Writer.unitEscape n = ['\\', 'u', a, b, c, d] ∧
    hexUnit? a b c d = some n := by
  intro n hn
  refine ⟨_, _, _, _, rfl, ?_⟩
  revert n
  decide

/-! ## Literals -/

/-- Characters that are no backslash and no quote are sealed. -/
theorem sealed_of_forall_ne {q : Char} {w : Text} (h : ∀ c ∈ w, c ≠ '\\' ∧ c ≠ q) : Sealed q w := by
  induction w with
  | nil => exact .nil
  | cons c w ih =>
    rw [List.forall_mem_cons] at h
    exact .plain h.1.1 h.1.2 (ih h.2)

/-- A digit in base sixteen is no quote, no backslash and no control character. -/
theorem hexDigits_ne : ∀ c ∈ hexDigits, c ≠ '\\' ∧ c ≠ '"' ∧ c ≠ '\'' ∧ 0x20 ≤ c.toNat := by
  decide

/-- The two quotes. -/
theorem eq_quote {q : Char} (hq : isCode q = false) : q = '"' ∨ q = '\'' :=
  isCode_eq_false_iff.mp hq

/-- What is spelled with a backslash is sealed. -/
theorem sealed_backslash {q : Char} (hq : isCode q = false) (d : Char) {hex : Text}
    (h : ∀ c ∈ hex, c ∈ hexDigits) : Sealed q ('\\' :: d :: hex) := by
  apply Sealed.escaped
  apply sealed_of_forall_ne
  intro c hc
  obtain ⟨hslash, hdouble, hsingle, -⟩ := hexDigits_ne c (h c hc)
  rcases eq_quote hq with rfl | rfl
  · exact ⟨hslash, hdouble⟩
  · exact ⟨hslash, hsingle⟩

/-- What is made of a character that is no backslash and no quote is sealed. -/
theorem sealed_escapeControl {q : Char} (hq : isCode q = false) {c : Char} (hslash : c ≠ '\\')
    (hquote : c ≠ q) : Sealed q (Mend.escapeControl c) := by
  by_cases hreturn : c = '\r'
  · rw [hreturn]
    exact .nil
  rcases escapeControl_cases hreturn with ⟨h, -⟩ | ⟨h, -⟩ | ⟨h, hlow⟩ | ⟨h, -⟩
  · rw [h]
    exact sealed_backslash hq _ (by simp)
  · rw [h]
    exact sealed_backslash hq _ (by simp)
  · obtain ⟨a, b, d, e, hunit, hhex⟩ := unitEscape_eq c.toNat hlow
    rw [h, hunit]
    exact sealed_backslash hq _ (mem_hexDigits_of_unit hhex)
  · rw [h]
    exact .plain hslash hquote .nil

/-- **A glyph never closes the literal it stands in.** -/
theorem sealed_text {q : Char} (hq : isCode q = false) (raw : Bool) (g : Glyph) (bare : Bool) :
    Sealed q (g.text q raw bare) := by
  by_cases hplain : ∃ c h, g = .plain c h
  · obtain ⟨c, h, rfl⟩ := hplain
    rw [text_plain]
    split
    · exact .escaped .nil
    · next hnot =>
      refine .plain h.2.2 ?_ .nil
      rcases eq_quote hq with rfl | rfl
      · exact h.2.1
      · rintro rfl
        exact hnot rfl
  have hne : ∀ c h, g ≠ .plain c h := fun c h heq => hplain ⟨c, h, heq⟩
  rcases text_of_ne_plain hne bare with ⟨c, hraw, htext⟩ | htext
  · obtain ⟨hslash, hdouble, hsingle⟩ := ne_of_isControl (raw?_eq_some hraw).1
    have hquote : c ≠ q := by
      rcases eq_quote hq with rfl | rfl
      · exact hdouble
      · exact hsingle
    rw [htext]
    split
    · exact .plain hslash hquote .nil
    · exact sealed_escapeControl hq hslash hquote
  · rw [htext]
    split
    · next hquote =>
      simp only [Bool.and_eq_true, decide_eq_true_eq] at hquote
      rw [hquote.2.1]
      exact .plain (by decide) (by decide) .nil
    · obtain ⟨d, hex, hstrict, -, hhex⟩ := strict_eq_backslash g hne
      rw [hstrict]
      exact sealed_backslash hq d hhex

/-- The inside of a string is sealed. -/
theorem sealed_looseBody {q : Char} (hq : isCode q = false) (raw : Bool) (s : Quoted) :
    Sealed q (s.looseBody q raw) :=
  Sealed.flatMap fun g _ => sealed_text hq raw g.1 g.2

/-! ## From single to double quotes -/

/-- A character that is no backslash and no double quote stays. -/
theorem requoteBody_cons {c : Char} (h₁ : c ≠ '\\') (h₂ : c ≠ '"') (r : Text) :
    Mend.requoteBody (c :: r) = c :: Mend.requoteBody r := by
  rw [Mend.requoteBody, if_neg h₂]
  · rfl
  · rintro _ _ rfl
    exact absurd rfl h₁

/-- What is spelled with a backslash stays, if it is no apostrophe. -/
theorem requoteBody_backslash {d : Char} (hd : d ≠ '\'') {hex : Text}
    (h : ∀ c ∈ hex, c ∈ hexDigits) (r : Text) :
    Mend.requoteBody ('\\' :: d :: (hex ++ r)) = '\\' :: d :: (hex ++ Mend.requoteBody r) := by
  rw [Mend.requoteBody, if_neg hd]
  have hhex : Mend.requoteBody (hex ++ r) = hex ++ Mend.requoteBody r := by
    induction hex with
    | nil => rfl
    | cons c hex ih =>
      rw [List.forall_mem_cons] at h
      obtain ⟨hslash, hdouble, -, -⟩ := hexDigits_ne c h.1
      rw [List.cons_append, requoteBody_cons hslash hdouble, ih h.2, List.cons_append]
  rw [hhex]
  rfl

/-- A glyph in single quotes becomes the glyph in double quotes. -/
theorem requoteBody_text (g : Glyph) (bare : Bool) (r : Text) :
    Mend.requoteBody (g.text '\'' true bare ++ r) = g.text '"' true bare ++ Mend.requoteBody r := by
  by_cases hplain : ∃ c h, g = .plain c h
  · obtain ⟨c, h, rfl⟩ := hplain
    rw [text_plain, text_plain]
    by_cases hc : c = '\''
    · subst hc
      rfl
    · have hsingle : (decide (c = '\'') && decide ('\'' = '\'')) = false := by simp [hc]
      have hdouble : (decide (c = '\'') && decide ('"' = '\'')) = false := by simp
      rw [hsingle, hdouble]
      exact requoteBody_cons h.2.2 h.2.1 r
  have hne : ∀ c h, g ≠ .plain c h := fun c h heq => hplain ⟨c, h, heq⟩
  rcases text_of_ne_plain hne bare with ⟨c, hraw, htext⟩ | htext
  · obtain ⟨hslash, hdouble, -⟩ := ne_of_isControl (raw?_eq_some hraw).1
    rw [htext, htext]
    exact requoteBody_cons hslash hdouble r
  · have hdouble : g.text '"' true bare = g.strict := by rw [htext, if_neg (by simp)]
    rw [hdouble, htext]
    split
    · next hquote =>
      simp only [Bool.and_eq_true, decide_eq_true_eq] at hquote
      rw [hquote.2.2]
      rfl
    · obtain ⟨d, hex, hstrict, hd, hhex⟩ := strict_eq_backslash g hne
      have hd' : d ≠ '\'' := by
        rintro rfl
        exact absurd hd (by decide)
      rw [hstrict]
      exact requoteBody_backslash hd' hhex r

/-- **The inside of a string in single quotes becomes its inside in double quotes.** -/
theorem requoteBody_looseBody (s : Quoted) :
    Mend.requoteBody (s.looseBody '\'' true) = s.looseBody '"' true := by
  unfold Quoted.looseBody
  induction s.glyphs with
  | nil => rfl
  | cons g gs ih => rw [List.flatMap_cons, List.flatMap_cons, requoteBody_text, ih]

/-! ## Control characters -/

/-- Characters of strict text need no escape. -/
theorem flatMap_escapeControl_of_le {w : Text} (h : ∀ c ∈ w, 0x20 ≤ c.toNat) :
    w.flatMap Mend.escapeControl = w := by
  induction w with
  | nil => rfl
  | cons c w ih =>
    rw [List.forall_mem_cons] at h
    rw [List.flatMap_cons, escapeControl_of_le h.1, ih h.2]
    rfl

/-- The letters of escapes are no control characters. -/
theorem le_of_mem_escapeLetters : ∀ d ∈ 'u' :: escapeLetters, 0x20 ≤ d.toNat := by decide

/-- Strict text has no raw control characters inside its strings. -/
theorem le_of_mem_strict (g : Glyph) : ∀ c ∈ g.strict, 0x20 ≤ c.toNat := by
  by_cases hplain : ∃ c h, g = .plain c h
  · obtain ⟨c, h, rfl⟩ := hplain
    simp only [Glyph.strict, List.mem_singleton, forall_eq]
    exact h.1
  · obtain ⟨d, hex, hstrict, hd, hhex⟩ := strict_eq_backslash g fun c h heq => hplain ⟨c, h, heq⟩
    rw [hstrict, List.forall_mem_cons, List.forall_mem_cons]
    exact ⟨by decide, le_of_mem_escapeLetters d hd, fun c hc => (hexDigits_ne c (hhex c hc)).2.2.2⟩

/-- In double quotes, a glyph with a raw control character becomes the glyph with an escape. -/
theorem escapeControl_text (g : Glyph) (bare : Bool) :
    (g.text '"' true bare).flatMap Mend.escapeControl = g.text '"' false bare := by
  by_cases hplain : ∃ c h, g = .plain c h
  · obtain ⟨c, h, rfl⟩ := hplain
    rw [text_plain, text_plain, if_neg (by simp)]
    exact flatMap_escapeControl_of_le (by simpa using h.1)
  have hne : ∀ c h, g ≠ .plain c h := fun c h heq => hplain ⟨c, h, heq⟩
  rcases text_of_ne_plain hne bare with ⟨c, -, htext⟩ | htext
  · rw [htext, htext, if_pos rfl, if_neg (by decide), List.flatMap_singleton]
  · rw [htext, htext, if_neg (by simp)]
    exact flatMap_escapeControl_of_le (le_of_mem_strict g)

/-- **The raw control characters of a string in double quotes become escapes.** -/
theorem flatMap_escapeControl_looseBody (s : Quoted) :
    (s.looseBody '"' true).flatMap Mend.escapeControl = s.looseBody '"' false := by
  unfold Quoted.looseBody
  rw [List.flatMap_assoc]
  congr 1
  funext g
  exact escapeControl_text g.1 g.2

/-! ## Reading -/

/-- A control character that mending has escaped spells its code. -/
theorem spellsUnit_escapeControl {c : Char} (hc : Glyph.isControl c.toNat = true)
    (hreturn : c ≠ '\r') :
    SpellsUnit (Mend.escapeControl c) c.toNat := by
  rcases escapeControl_cases hreturn with ⟨h, rfl⟩ | ⟨h, rfl⟩ | ⟨h, hlow⟩ | ⟨h, hle⟩
  · rw [h]
    exact spellsUnit_escape rfl
  · rw [h]
    exact spellsUnit_escape rfl
  · obtain ⟨a, b, d, e, hunit, hhex⟩ := unitEscape_eq c.toNat hlow
    rw [h, hunit]
    exact spellsUnit_unit hhex
  · obtain ⟨hslash, hdouble, -⟩ := ne_of_isControl hc
    rw [h]
    exact spellsUnit_plain ⟨hle, hdouble, hslash⟩

/-- A glyph in double quotes without raw control characters spells its code unit. -/
theorem spellsUnit_text (g : Glyph) (bare : Bool) :
    SpellsUnit (g.text '"' false bare) g.codeUnit := by
  by_cases hplain : ∃ c h, g = .plain c h
  · obtain ⟨c, h, rfl⟩ := hplain
    rw [text_plain, if_neg (by simp)]
    exact spellsUnit_plain h
  have hne : ∀ c h, g ≠ .plain c h := fun c h heq => hplain ⟨c, h, heq⟩
  rcases text_of_ne_plain hne bare with ⟨c, hraw, htext⟩ | htext
  · obtain ⟨hcontrol, hreturn, hcode⟩ := raw?_eq_some hraw
    rw [htext, if_neg (by decide), hcode]
    exact spellsUnit_escapeControl hcontrol hreturn
  · rw [htext, if_neg (by simp)]
    exact spellsUnit_strict g

/-- The characters of names are plain. -/
theorem plain_of_isNamePart {c : Char} (h : Text.isNamePart c = true) :
    0x20 ≤ c.toNat ∧ c ≠ '"' ∧ c ≠ '\\' ∧ c ≠ '/' ∧ c ≠ ',' ∧ c ≠ ':' ∧ isBlank c = false := by
  have hle : c ≤ 'z' ∨ c ≤ 'Z' ∨ c = '_' ∨ c ≤ '9' := by
    simp only [Text.isNamePart, Text.isNameStart, Text.isAsciiDigit, Bool.or_eq_true,
      Bool.and_eq_true, decide_eq_true_eq, beq_iff_eq] at h
    rcases h with ((h | h) | h) | h
    · exact .inl h.2
    · exact .inr (.inl h.2)
    · exact .inr (.inr (.inl h))
    · exact .inr (.inr (.inr h.2))
  have hlt : c.toNat < 128 := by
    rcases hle with hle | hle | rfl | hle
    · exact Nat.lt_of_le_of_lt (UInt32.le_iff_toNat_le.mp (Char.le_def.mp hle)) (by decide)
    · exact Nat.lt_of_le_of_lt (UInt32.le_iff_toNat_le.mp (Char.le_def.mp hle)) (by decide)
    · decide
    · exact Nat.lt_of_le_of_lt (UInt32.le_iff_toNat_le.mp (Char.le_def.mp hle)) (by decide)
  exact forall_of_toNat_lt (P := fun c => Text.isNamePart c = true →
    0x20 ≤ c.toNat ∧ c ≠ '"' ∧ c ≠ '\\' ∧ c ≠ '/' ∧ c ≠ ',' ∧ c ≠ ':' ∧ isBlank c = false)
    (by decide) c hlt h

/-- A blank is no part of a key. -/
theorem isNamePart_of_isBlank {c : Char} (h : isBlank c = true) : Text.isNamePart c = false := by
  rcases hpart : Text.isNamePart c with _ | _
  · rfl
  · have := (plain_of_isNamePart hpart).2.2.2.2.2.2
    rw [h] at this
    cases this

/-- A blank starts no key. -/
theorem isNameStart_of_isBlank {c : Char} (h : isBlank c = true) : Text.isNameStart c = false := by
  have := isNamePart_of_isBlank h
  rw [Text.isNamePart, Bool.or_eq_false_iff] at this
  exact this.1

/-- A blank is code that no stage looks at. -/
theorem code_of_isBlank {c : Char} (h : isBlank c = true) :
    isCode c = true ∧ c ≠ '/' ∧ c ≠ ',' := by
  refine ⟨Mend.isCode_of_isBlank h, ?_, ?_⟩
  · rintro rfl
    exact absurd h (by decide)
  · rintro rfl
    exact absurd h (by decide)

/-- A name starts with a letter or an underscore, and all its characters are parts of keys. -/
theorem exists_of_isName {name : Text} (h : isName name = true) :
    ∃ c r, name = c :: r ∧ Text.isNameStart c = true ∧ ∀ d ∈ name, Text.isNamePart d = true := by
  cases name with
  | nil => cases h
  | cons c r =>
    simp only [isName, Bool.and_eq_true, List.all_eq_true] at h
    refine ⟨c, r, rfl, h.1, List.forall_mem_cons.mpr ⟨?_, h.2⟩⟩
    rw [Text.isNamePart, h.1]
    rfl

/-- No relaxations. -/
def Spelling.Looseness.clean : Looseness := ⟨false, false, false, false, false⟩

/-- Without comments there are only blanks between tokens. -/
theorem isValueBlank_of_mem_pieces {l : Looseness} (hl : l.comments = false) (ps : List Piece) :
    ∀ c ∈ l.pieces ps, isValueBlank c = true := by
  intro c hc
  rw [Looseness.pieces, List.mem_flatMap] at hc
  obtain ⟨p, -, hp⟩ := hc
  rw [hl, if_neg (by decide)] at hp
  cases p with
  | blank d hd =>
    rw [Piece.residue, List.mem_singleton] at hp
    exact hp ▸ hd
  | line body h =>
    rw [Piece.residue, List.mem_singleton] at hp
    exact hp ▸ rfl
  | block body h => cases hp

/-- A name in double quotes reads as the key it stands for. -/
theorem spellsString_name {k : Key} {name : Text} (h : k.bare = some name) :
    SpellsString ('"' :: (name ++ ['"'])) k.quoted := by
  obtain ⟨hname, hunits⟩ := k.isBare name h
  obtain ⟨-, -, -, -, hparts⟩ := exists_of_isName hname
  have hspells : ∀ c ∈ name, SpellsUnit [c] c.toNat := by
    intro c hc
    obtain ⟨hle, hdouble, hslash, -⟩ := plain_of_isNamePart (hparts c hc)
    exact spellsUnit_plain ⟨hle, hdouble, hslash⟩
  apply spellsString_of_units
  intro r
  rw [hunits]
  have := units_flatMap hspells r
  rwa [List.flatMap_singleton'] at this

/-- **The pen without relaxations is legible.** -/
theorem legible_clean : (Pen.loose .clean).Legible := by
  have hstring : ∀ s, SpellsString (Looseness.clean.string s) s := by
    intro s
    have hquote : Looseness.clean.quote s = '"' := by simp [Looseness.quote, Looseness.clean]
    rw [Looseness.string, hquote]
    apply spellsString_of_units
    exact fun r => units_flatMap (fun g _ => spellsUnit_text g.1 g.2) r
  constructor
  case gap => exact fun g => isValueBlank_of_mem_pieces rfl g.loose
  case trailing =>
    intro ps c hc
    cases ps with
    | none => cases hc
    | some ps => exact isValueBlank_of_mem_pieces rfl ps c hc
  case key =>
    intro k
    simp only [Pen.loose]
    split
    · exact hstring k.quoted
    · next name hbare => exact spellsString_name hbare
  case string => exact hstring

end ShapedReply
