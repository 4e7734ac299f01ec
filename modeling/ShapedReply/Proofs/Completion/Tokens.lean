import ShapedReply.Loose.Completion
import ShapedReply.Proofs.Completion.Unreadable

/-!
# Beginnings of words and strings

A text that breaks off inside a token leaves a beginning of it.

* `word_beginning`: **a beginning of a word is a word again**, a number that a beginning of the
  literal denotes, **or it is a fault** in front of every closing bracket.
* `string_beginning`: **a beginning of a string, closed by a quote, is a beginning of the string's
  glyphs, or it is a fault**, an escape without all its digits. A backslash without its character
  goes.
-/

namespace ShapedReply

open Text Reader Spelling Outcome

/-! ## Beginnings of words -/

/-- A beginning of one of the three names is the name or a fault. -/
theorem unreadable_name {w : Word} (hw : w = .null ∨ w = .bool true ∨ w = .bool false) {p : Text}
    (hp : p <+: w.text) (hne : p ≠ []) (hproper : p ≠ w.text) (k : Container) (r : Text) :
    Unreadable (p ++ k.closer :: r) := by
  intro n _
  rcases hw with rfl | rfl | rfl
  all_goals simp only [Word.text, List.prefix_cons_iff, List.prefix_nil] at hp
  · rcases hp with rfl | ⟨_, rfl, rfl | ⟨_, rfl, rfl | ⟨_, rfl, rfl | ⟨_, rfl, rfl⟩⟩⟩⟩
    · exact absurd rfl hne
    · cases k <;> exact ⟨_, rfl⟩
    · cases k <;> exact ⟨_, rfl⟩
    · cases k <;> exact ⟨_, rfl⟩
    · exact absurd rfl hproper
  · rcases hp with rfl | ⟨_, rfl, rfl | ⟨_, rfl, rfl | ⟨_, rfl, rfl | ⟨_, rfl, rfl⟩⟩⟩⟩
    · exact absurd rfl hne
    · cases k <;> exact ⟨_, rfl⟩
    · cases k <;> exact ⟨_, rfl⟩
    · cases k <;> exact ⟨_, rfl⟩
    · exact absurd rfl hproper
  · rcases hp with
      rfl | ⟨_, rfl, rfl | ⟨_, rfl, rfl | ⟨_, rfl, rfl | ⟨_, rfl, rfl | ⟨_, rfl, rfl⟩⟩⟩⟩⟩
    · exact absurd rfl hne
    · cases k <;> exact ⟨_, rfl⟩
    · cases k <;> exact ⟨_, rfl⟩
    · cases k <;> exact ⟨_, rfl⟩
    · cases k <;> exact ⟨_, rfl⟩
    · exact absurd rfl hproper

/-- A number goes on with no blank, comma or closing bracket. -/
theorem numberParts_ne :
    ∀ c ∈ numberParts, isValueBlank c = false ∧ c ≠ ',' ∧ c ≠ ']' ∧ c ≠ '}' := by
  decide

/-- What a beginning of a number starts with, and that the reader takes it for a number. -/
theorem starts_number_beginning {t p : Text} {v : Value} (reads : Reader.number t = .ok (v, []))
    (hp : p <+: t) (hne : p ≠ []) : ∃ c q, p = c :: q ∧ c ∈ valueStarts ∧
      ∀ (k : Container) (n : Nat) (r : Text),
        value (n + 1) (p ++ k.closer :: r) = Reader.number (p ++ k.closer :: r) := by
  obtain ⟨w, ht, -, hstart, -⟩ := number_eq_ok reads
  rw [List.append_nil] at ht
  subst ht
  obtain ⟨c, q, rfl⟩ := List.exists_cons_of_ne_nil hne
  rcases hstart with ⟨d, w', rfl, hd⟩ | ⟨d, w', rfl, hd⟩
  · obtain ⟨rfl, -⟩ := List.cons_prefix_cons.mp hp
    refine ⟨c, q, rfl, List.mem_append_left _ (mem_digits hd), fun k n r => ?_⟩
    exact value_of_startsNumber (startsNumber_of_isAsciiDigit hd _) n
  · obtain ⟨rfl, hq⟩ := List.cons_prefix_cons.mp hp
    refine ⟨'-', q, rfl, by decide, fun k n r => ?_⟩
    rcases List.prefix_cons_iff.mp hq with rfl | ⟨q', rfl, -⟩
    · cases k <;> rfl
    · have hstart : startsNumber ('-' :: d :: q' ++ k.closer :: r) = true := hd
      exact value_of_startsNumber hstart n

/-- A beginning of a number literal is a number literal, or a fault in front of a closing
bracket. -/
theorem number_beginning {t p : Text} {v : Value} (reads : Reader.number t = .ok (v, []))
    (hp : p <+: t) (hne : p ≠ []) : (∃ w, Reader.number p = .ok (w, [])) ∨
      ∀ {k : Container} (head : Head k) (r : Text),
        UnreadableEntries k (head.text .strict ++ (p ++ k.closer :: r)) := by
  obtain ⟨c, q, hcons, hc, hvalue⟩ := starts_number_beginning reads hp hne
  have hparts : ∀ d ∈ p, d ∈ numberParts := by
    obtain ⟨w, ht, hw, -, -⟩ := number_eq_ok reads
    rw [List.append_nil] at ht
    subst ht
    exact fun d hd => mem_numberParts (hw d (hp.mem hd))
  by_cases hread : ∃ w, Reader.number p = .ok (w, [])
  · exact .inl hread
  refine .inr fun {k} head r => ⟨?_, fun n hn => ?_⟩
  · rw [hcons]
    exact (StartsEntry.of_mem hc _).head head
  have hlen : 1 ≤ p.length := by rw [hcons, List.length_cons]; omega
  simp only [List.length_append] at hn
  obtain ⟨m, rfl⟩ : ∃ m, n = m + 2 := ⟨n - 2, by omega⟩
  have hskip : skipValueBlanks (p ++ k.closer :: r) = p ++ k.closer :: r := by
    rw [hcons, List.cons_append, skipValueBlanks_cons (ne_of_mem_valueStarts c hc).1]
  rw [readEntries_succ, readName_text legible_strict, hskip]
  show ∃ e, (value (m + 1) (p ++ k.closer :: r) >>= _) = .error e
  rw [hvalue]
  rcases hnumber : Reader.number (p ++ k.closer :: r) with e | ⟨u, s⟩
  · exact ⟨e, rfl⟩
  -- a number was read off the beginning, and something of the beginning is left behind it
  obtain ⟨w, htext, hw, -, hreads⟩ := number_eq_ok hnumber
  have hcloser : isNumberPart k.closer = false := by cases k <;> rfl
  rcases proper_or_behind_of_prefix_append (⟨s, htext.symm⟩ : w <+: p ++ k.closer :: r) with
    ⟨⟨l, rfl⟩, hproper⟩ | ⟨l, rfl, hl⟩
  · rcases l with _ | ⟨d, l⟩
    · exact absurd (List.append_nil w).symm hproper
    have hs : s = d :: (l ++ k.closer :: r) := by simpa using htext.symm
    obtain ⟨hblank, hcomma, h₁, h₂⟩ := numberParts_ne d (hparts d (by simp))
    refine ⟨.malformed, ?_⟩
    show readBehind k (m + 1) _ (skipValueBlanks s) = _
    rw [hs, skipValueBlanks_cons hblank]
    apply readBehind_other
    · rintro r' heq
      cases heq
      cases k
      · exact h₁ rfl
      · exact h₂ rfl
    · rintro r' heq
      cases heq
      exact hcomma rfl
  · rcases List.prefix_cons_iff.mp hl with rfl | ⟨l', rfl, -⟩
    · refine absurd ⟨u, ?_⟩ hread
      have := hreads [] stopsNumber_nil
      rwa [List.append_nil, List.append_nil] at this
    · have := hw k.closer (by simp)
      rw [hcloser] at this
      cases this

/-- **A beginning of a word is a truncation of it, or a fault in front of a closing bracket.** -/
theorem word_beginning (w : Word) {p : Text} (hp : p <+: w.text) (hne : p ≠ []) :
    (∃ w' : Word, w'.text = p ∧ Truncated (.word w) p w'.value) ∨
      ∀ {k : Container} (head : Head k) (r : Text),
        UnreadableEntries k (head.text .strict ++ (p ++ k.closer :: r)) := by
  by_cases hproper : p = w.text
  · have hwhole := Truncated.whole (.word w)
    rw [Tree.text, Tree.value] at hwhole
    exact .inl ⟨w, hproper.symm, by rwa [hproper]⟩
  have hname : w = .null ∨ w = .bool true ∨ w = .bool false →
      ∀ {k : Container} (head : Head k) (r : Text),
        UnreadableEntries k (head.text .strict ++ (p ++ k.closer :: r)) := by
    intro hw k head r
    have hfault := unreadable_name hw hp hne hproper k r
    obtain ⟨d, s, hd, hd'⟩ := exists_word_eq_cons w
    obtain ⟨c, q, rfl⟩ := List.exists_cons_of_ne_nil hne
    rw [hd] at hp
    obtain ⟨rfl, -⟩ := List.cons_prefix_cons.mp hp
    exact hfault.entry head hd'
  cases w with
  | null => exact .inr (hname (.inl rfl))
  | bool b =>
    cases b
    · exact .inr (hname (.inr (.inr rfl)))
    · exact .inr (hname (.inr (.inl rfl)))
  | number t v reads =>
    rcases number_beginning reads hp hne with ⟨u, hu⟩ | hfault
    · have hread : Value.read p = .ok u := by
        have := read_text_alone legible_strict (.word (.number p u hu))
        rwa [Tree.text, Tree.value] at this
      exact .inl ⟨.number p u hu, rfl, .number hp hread⟩
    · exact .inr hfault

/-! ## Beginnings of strings -/

/-- A proper beginning of a glyph: nothing, a backslash, or an escape without all its digits. -/
theorem glyph_beginning (g : Glyph) {w : Text} (hw : w <+: g.strict) (hproper : w ≠ g.strict) :
    w = [] ∨ w = ['\\'] ∨ ∃ x, x.length < 4 ∧ Sealed '"' x ∧ w = '\\' :: 'u' :: x := by
  cases g with
  | plain c h =>
    rcases List.prefix_cons_iff.mp hw with h | ⟨q, h, hq⟩
    · exact .inl h
    · rw [List.prefix_nil.mp hq] at h
      exact absurd h hproper
  | escape c e h =>
    rcases List.prefix_cons_iff.mp hw with h | ⟨q, h, hq⟩
    · exact .inl h
    rcases List.prefix_cons_iff.mp hq with rfl | ⟨q', rfl, hq'⟩
    · exact .inr (.inl h)
    · rw [List.prefix_nil.mp hq'] at h
      exact absurd h hproper
  | unit a b c d u h =>
    rcases List.prefix_cons_iff.mp hw with h' | ⟨q, h', hq⟩
    · exact .inl h'
    rcases List.prefix_cons_iff.mp hq with rfl | ⟨x, rfl, hx⟩
    · exact .inr (.inl h')
    refine .inr (.inr ⟨x, ?_, ?_, h'⟩)
    · have hle : x.length ≤ 4 := hx.length_le
      have hne : x.length ≠ 4 := by
        intro hlen
        rw [hx.eq_of_length hlen] at h'
        exact hproper h'
      omega
    · apply sealed_of_forall_ne
      intro d' hd'
      have hdigits := mem_hexDigits_of_unit h
      have := hexDigits_ne d' (hdigits d' (hx.mem hd'))
      exact ⟨this.1, this.2.1⟩

/-- A beginning of a row of glyphs: some of the glyphs, and a proper beginning of the next. -/
theorem glyphs_beginning {gs : List (Glyph × Bool)} {w : Text}
    (hw : w <+: gs.flatMap fun g => g.1.strict) : ∃ gs' part, gs' <+: gs ∧
      w = (gs'.flatMap fun g => g.1.strict) ++ part ∧
      (part = [] ∨ part = ['\\'] ∨ ∃ x, x.length < 4 ∧ Sealed '"' x ∧ part = '\\' :: 'u' :: x) := by
  induction gs generalizing w with
  | nil => exact ⟨[], [], List.prefix_rfl, List.prefix_nil.mp hw, .inl rfl⟩
  | cons g gs ih =>
    rw [List.flatMap_cons] at hw
    rcases proper_or_behind_of_prefix_append hw with ⟨hw, hproper⟩ | ⟨v, rfl, hv⟩
    · exact ⟨[], w, List.nil_prefix, rfl, glyph_beginning g.1 hw hproper⟩
    · obtain ⟨gs', part, hgs, rfl, hpart⟩ := ih hv
      refine ⟨g :: gs', part, List.cons_prefix_cons.mpr ⟨rfl, hgs⟩, ?_, hpart⟩
      rw [List.flatMap_cons, List.append_assoc]

/-- An escape without all its digits, with a quote behind it, is a fault. -/
theorem units_short_escape {x : Text} (hx : x.length < 4) (r : Text) :
    units ('\\' :: 'u' :: (x ++ '"' :: r)) = .error .malformed := by
  have hquote : hexValue? '"' = none := by decide
  have hbind : ∀ {α β : Type} (o : Option α), (o.bind fun _ => (none : Option β)) = none := by
    intro α β o
    cases o <;> rfl
  have hunit : ∀ a b c d, '"' ∈ [a, b, c, d] → hexUnit? a b c d = none := by
    intro a b c d h
    simp only [List.mem_cons, List.not_mem_nil, or_false] at h
    rcases h with rfl | rfl | rfl | rfl <;> simp [hexUnit?, hquote, hbind]
  rw [units.eq_def]
  split
  · next heq => cases heq
  · next heq => cases heq
  · next a b c d s heq =>
    have hmem : '"' ∈ [a, b, c, d] := by
      have htake : [a, b, c, d] = (x ++ '"' :: r).take 4 := by
        simp only [List.cons.injEq, true_and] at heq
        rw [heq]
        rfl
      rw [htake, List.mem_iff_getElem]
      refine ⟨x.length, by simp; omega, by simp⟩
    rw [hunit a b c d hmem]
  · next heq =>
    cases heq
    rfl
  · next hcase heq =>
    cases heq
    exact absurd rfl (hcase _ _ rfl)

/-- A fault behind glyphs is a fault of the string. -/
theorem units_flatMap_error {gs : List (Glyph × Bool)} {t : Text} {e : ReadError}
    (h : units t = .error e) : units ((gs.flatMap fun g => g.1.strict) ++ t) = .error e := by
  induction gs with
  | nil => exact h
  | cons g gs ih =>
    rw [List.flatMap_cons, List.append_assoc, spellsUnit_strict g.1, ih]
    rfl

/-- What the outline finds behind a string that breaks off, and how it is closed. -/
theorem string_beginning (s : Quoted) {p : Text} (hp : p <+: s.strictBody) : ∃ place w,
    (∀ cs n cuts, Outline.after ⟨cs, .code, n, cuts⟩ ('"' :: p) =
      ⟨cs, place, n + ('"' :: p).length, cuts⟩) ∧
    (∀ o : Outline, o.place = place →
      ∀ t, Completion.closeString o (t ++ '"' :: p) = t ++ '"' :: (w ++ ['"'])) ∧
    Sealed '"' w ∧
    ((∃ gs, gs <+: s.glyphs ∧ w = (Quoted.mk gs false).strictBody) ∨
      ∀ r, units (w ++ '"' :: r) = .error .malformed) := by
  have hinside : ∀ {w : Text}, Sealed '"' w → ∀ cs n cuts,
      Outline.after ⟨cs, .code, n, cuts⟩ ('"' :: w) =
        ⟨cs, .inside '"', n + ('"' :: w).length, cuts⟩ := by
    intro w hw cs n cuts
    show Outline.after ⟨cs, .inside '"', n + 1, cuts⟩ w = _
    rw [Outline.after_sealed hw, List.length_cons, Nat.add_assoc, Nat.add_comm 1]
  have hclose : ∀ (w : Text) (o : Outline), o.place = .inside '"' →
      ∀ t, Completion.closeString o (t ++ '"' :: w) = t ++ '"' :: (w ++ ['"']) := by
    intro w o ho t
    unfold Completion.closeString
    rw [ho]
    simp
  obtain ⟨gs, part, hgs, rfl, hpart⟩ := glyphs_beginning hp
  have hsealed : Sealed '"' (gs.flatMap fun g => g.1.strict) := sealed_strictBody ⟨gs, false⟩
  rcases hpart with rfl | rfl | ⟨x, hlen, hx, rfl⟩
  · rw [List.append_nil]
    exact ⟨_, _, hinside hsealed, hclose _, hsealed, .inl ⟨gs, hgs, rfl⟩⟩
  · refine ⟨.escaped '"', _, ?_, ?_, hsealed, .inl ⟨gs, hgs, rfl⟩⟩
    · intro cs n cuts
      rw [← List.cons_append, Outline.after_append, hinside hsealed, List.length_append]
      rfl
    · intro o ho t
      unfold Completion.closeString
      rw [ho, ← List.cons_append, ← List.append_assoc]
      show List.dropLast _ ++ ['"'] = _
      rw [List.dropLast_concat, List.append_assoc, List.cons_append]
  · have hsealed' := hsealed.append (Sealed.escaped (c := 'u') hx)
    refine ⟨_, _, hinside hsealed', hclose _, hsealed', .inr fun r => ?_⟩
    rw [List.append_assoc]
    exact units_flatMap_error (units_short_escape hlen r)

/-! ## Beginnings of glyphs mean beginnings of strings -/

/-- Units without halves of surrogate pairs spell one character each. -/
theorem joinUnits_of_not_isHalf {us : List Nat} (h : ∀ u ∈ us, Surrogate.isHalf u = false) :
    joinUnits us = us.map Char.ofNat := by
  fun_induction joinUnits us with
  | case1 => rfl
  | case2 u =>
    rw [List.map_singleton, unitChar, h u List.mem_cons_self]
    rfl
  | case3 high low us hpair _ =>
    have hhalf := h high List.mem_cons_self
    simp only [Surrogate.isHigh, Surrogate.isHalf, Bool.and_eq_true, decide_eq_true_eq,
      Bool.and_eq_false_iff, decide_eq_false_iff_not] at hpair hhalf
    omega
  | case4 high low us _ ih =>
    rw [List.forall_mem_cons] at h
    rw [ih h.2, List.map_cons, unitChar, h.1]
    rfl

/-- Only an escape names half of a surrogate pair. -/
theorem isHalf_codeUnit {g : Glyph} (h : g.isSurrogate = false) :
    Surrogate.isHalf g.codeUnit = false := by
  have hchar : ∀ c : Char, Surrogate.isHalf c.toNat = false := by
    intro c
    have hvalid : c.toNat < 0xD800 ∨ 0xDFFF < c.toNat ∧ c.toNat < 0x110000 := c.valid
    simp only [Surrogate.isHalf, Bool.and_eq_false_iff, decide_eq_false_iff_not]
    omega
  cases g with
  | plain c _ => exact hchar c
  | escape _ e _ => exact hchar e
  | unit a b c d u _ => exact h

/-- **Without halves of surrogate pairs a beginning of the glyphs means a beginning of the
string.** -/
theorem meaning_beginning {s : Quoted} (hs : ∀ g ∈ s.glyphs, g.1.isSurrogate = false)
    {gs : List (Glyph × Bool)} (hgs : gs <+: s.glyphs) :
    (Quoted.mk gs false).meaning.toList <+: s.meaning.toList := by
  have hmeaning : ∀ s : Quoted, (∀ g ∈ s.glyphs, g.1.isSurrogate = false) →
      s.meaning.toList = s.glyphs.map fun g => Char.ofNat g.1.codeUnit := by
    intro s hs
    have hhalf : ∀ u ∈ s.codeUnits, Surrogate.isHalf u = false := by
      intro u hu
      obtain ⟨g, hg, rfl⟩ := List.mem_map.mp hu
      exact isHalf_codeUnit (hs g hg)
    rw [Quoted.meaning, String.toList_ofList, joinUnits_of_not_isHalf hhalf, Quoted.codeUnits,
      List.map_map]
    rfl
  rw [hmeaning s hs, hmeaning ⟨gs, false⟩ fun g hg => hs g (hgs.mem hg)]
  exact hgs.map _

end ShapedReply
