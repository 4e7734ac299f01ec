import ShapedReply.Proofs.Outcome
import ShapedReply.Proofs.Spelling.Basic

/-!
# Reading blanks and strings

What the reader does with the two kinds of tokens that a pen may write in several ways. Blanks are
passed over (`skipValueBlanks_append`). A string is read glyph by glyph: each glyph of strict text
gives its code unit (`units_strict`), and what is read as a string is made of glyphs
(`units_eq_ok`).
-/

namespace ShapedReply

open Text Reader Spelling Outcome

/-! ## Blanks -/

/-- Blanks before a text are passed over. -/
theorem skipValueBlanks_append {g : Text} (hg : ∀ c ∈ g, isValueBlank c = true) (t : Text) :
    skipValueBlanks (g ++ t) = skipValueBlanks t :=
  List.dropWhile_append_of_pos hg

/-- A text that starts with no blank keeps its start. -/
theorem skipValueBlanks_cons {c : Char} (hc : isValueBlank c = false) (t : Text) :
    skipValueBlanks (c :: t) = c :: t :=
  List.dropWhile_cons_of_neg (by simp [hc])

/-- A text is its leading blanks and the rest. -/
theorem exists_blanks_append (t : Text) :
    ∃ g, (∀ c ∈ g, isValueBlank c = true) ∧ t = g ++ skipValueBlanks t :=
  ⟨t.takeWhile isValueBlank, fun c hc => List.all_eq_true.mp List.all_takeWhile c hc,
    List.takeWhile_append_dropWhile.symm⟩

/-! ## Glyphs -/

/-- `SpellsUnit w u`: the reader takes `w` for the code unit `u` of a string, whatever follows. -/
def SpellsUnit (w : Text) (u : Nat) : Prop :=
  ∀ r, units (w ++ r) = (units r).map fun p => (u :: p.1, p.2)

/-- A plain character spells itself. -/
theorem spellsUnit_plain {c : Char} (h : 0x20 ≤ c.toNat ∧ c ≠ '"' ∧ c ≠ '\\') :
    SpellsUnit [c] c.toNat := by
  intro r
  obtain ⟨hlow, hquote, hslash⟩ := h
  have hlow' : ¬ c.toNat < 0x20 := by omega
  rw [List.singleton_append, units.eq_def]
  split
  · next heq => cases heq
  · next heq =>
    cases heq
    exact absurd rfl hquote
  · next heq =>
    cases heq
    exact absurd rfl hslash
  · next heq =>
    cases heq
    exact absurd rfl hslash
  · next heq =>
    cases heq
    simp [hlow', hslash]

/-- A letter behind a backslash spells what it stands for. -/
theorem spellsUnit_escape {c e : Char} (h : simpleEscape? c = some e) :
    SpellsUnit ['\\', c] e.toNat := by
  intro r
  rw [List.cons_append, List.singleton_append, units.eq_def]
  split
  · next heq => cases heq
  · next heq => cases heq
  · next heq =>
    cases heq
    cases h
  · next heq =>
    cases heq
    simp only [h]
  · next hcase heq =>
    cases heq
    exact absurd rfl (hcase _ _ rfl)

/-- Four hexadecimal digits spell their unit. -/
theorem spellsUnit_unit {a b c d : Char} {u : Nat} (h : hexUnit? a b c d = some u) :
    SpellsUnit ['\\', 'u', a, b, c, d] u := by
  intro r
  simp only [List.cons_append, List.nil_append, units, h]

/-- Each glyph of strict text spells its unit. -/
theorem spellsUnit_strict (g : Glyph) : SpellsUnit g.strict g.codeUnit := by
  cases g with
  | plain c h => exact spellsUnit_plain h
  | escape c e h => exact spellsUnit_escape h
  | unit a b c d u h => exact spellsUnit_unit h

/-- Texts in a row spell their units in a row, up to the closing quote. -/
theorem units_flatMap {α : Type} {f : α → Text} {u : α → Nat} {gs : List α}
    (h : ∀ g ∈ gs, SpellsUnit (f g) (u g)) (r : Text) :
    units (gs.flatMap f ++ '"' :: r) = .ok (gs.map u, r) := by
  induction gs with
  | nil => rfl
  | cons g gs ih =>
    rw [List.forall_mem_cons] at h
    rw [List.flatMap_cons, List.append_assoc, h.1, ih h.2]
    rfl

/-- What is read as a string is made of glyphs. -/
theorem units_eq_ok {t r : Text} {us : List Nat} (h : units t = .ok (us, r)) :
    ∃ gs : List Glyph, t = gs.flatMap Glyph.strict ++ '"' :: r ∧ us = gs.map Glyph.codeUnit := by
  fun_induction units t generalizing us with
  | case1 => cases h
  | case2 r' =>
    cases h
    exact ⟨[], rfl, rfl⟩
  | case3 a b c d r' u hu ih =>
    obtain ⟨⟨us', r''⟩, hrest, heq⟩ := map_eq_ok_iff.mp h
    cases heq
    obtain ⟨gs, rfl, rfl⟩ := ih hrest
    exact ⟨.unit a b c d u hu :: gs, rfl, rfl⟩
  | case4 => cases h
  | case5 c r' hnot e he ih =>
    obtain ⟨⟨us', r''⟩, hrest, heq⟩ := map_eq_ok_iff.mp h
    cases heq
    obtain ⟨gs, rfl, rfl⟩ := ih hrest
    exact ⟨.escape c e he :: gs, rfl, rfl⟩
  | case6 => cases h
  | case7 => cases h
  | case8 c r' hquote hunit hescape hplain ih =>
    obtain ⟨⟨us', r''⟩, hrest, heq⟩ := map_eq_ok_iff.mp h
    cases heq
    obtain ⟨gs, rfl, rfl⟩ := ih hrest
    have hc : 0x20 ≤ c.toNat ∧ c ≠ '"' ∧ c ≠ '\\' := by
      simp only [Bool.or_eq_true, decide_eq_true_eq, beq_iff_eq, not_or, Nat.not_lt] at hplain
      exact ⟨hplain.1, hquote, hplain.2⟩
    exact ⟨.plain c hc :: gs, rfl, rfl⟩

end ShapedReply
