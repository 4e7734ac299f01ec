import ShapedReply.Proofs.Loose.Chunks
import ShapedReply.Proofs.Mending.Order

/-!
# Bare keys of any code

A bare key is a name behind an opening brace or a comma and before a colon, with blanks in between.
The stage that quotes bare keys looks for them one character at a time. What it finds is said here
without it: `HoldsKey` says that a bare key stands in a text, and `KeysCut` cuts code at its bare
keys, from left to right, until no piece holds one.

* `exists_keysCut`: **the stage puts quotes around the bare keys of code, around each of them, and
  around nothing else.** The induction keeps that no bare key starts in what has been passed, and
  that a key may start exactly where the passed text awaits one.
* `quoteKeysFrom_of_not_holdsKey`: code without bare keys is left as it is.
-/

namespace ShapedReply

open Text Mend Spelling Chunk

/-! ## Bare keys -/

/-- A text behind which a key may start: it ends with an opening brace or a comma and blanks. -/
def AwaitsKey (t : Text) : Prop :=
  ∃ s o g, t = s ++ o :: g ∧ (o = '{' ∨ o = ',') ∧ ∀ c ∈ g, isBlank c = true

/-- A text before which a key may end: it starts with blanks and a colon. -/
def ColonNext (t : Text) : Prop :=
  ∃ g r, t = g ++ ':' :: r ∧ ∀ c ∈ g, isBlank c = true

/-- A bare key stands in a text. -/
def HoldsKey (t : Text) : Prop :=
  ∃ before name after, t = before ++ (name ++ after) ∧ AwaitsKey before ∧ isName name = true ∧
    ColonNext after

/-- `KeysCut t pieces`: the code `t` is cut at its bare keys, which stand between double quotes in
`pieces`. -/
inductive KeysCut : Text → List Chunk → Prop where
  | none {t : Text} : t ≠ [] → ¬ HoldsKey t → KeysCut t [.code t]
  | key {before name after : Text} {pieces : List Chunk} : AwaitsKey before → ¬ HoldsKey before →
      isName name = true → ColonNext after → KeysCut after pieces →
      KeysCut (before ++ (name ++ after)) (.code before :: .literal '"' name true :: pieces)

/-- Behind nothing no key is awaited. -/
theorem not_awaitsKey_nil : ¬ AwaitsKey [] := by
  rintro ⟨s, o, g, heq, -⟩
  simp at heq

/-- A key may start behind a character that opens one, or behind a blank if one may start before
it. -/
theorem awaitsKey_concat {s : Text} {c : Char} :
    AwaitsKey (s ++ [c]) ↔ c = '{' ∨ c = ',' ∨ AwaitsKey s ∧ isBlank c = true := by
  constructor
  · rintro ⟨s', o, g, heq, ho, hg⟩
    rcases List.eq_nil_or_concat' g with rfl | ⟨g, d, rfl⟩
    · obtain ⟨-, hlast⟩ := List.append_inj' heq rfl
      cases hlast
      rcases ho with rfl | rfl
      · exact .inl rfl
      · exact .inr (.inl rfl)
    · rw [← List.cons_append, ← List.append_assoc] at heq
      obtain ⟨rfl, hlast⟩ := List.append_inj' heq rfl
      cases hlast
      rw [List.forall_mem_append] at hg
      exact .inr (.inr ⟨⟨s', o, g, rfl, ho, hg.1⟩, hg.2 c List.mem_cons_self⟩)
  · rintro (rfl | rfl | ⟨⟨s', o, g, rfl, ho, hg⟩, hc⟩)
    · exact ⟨s, '{', [], rfl, .inl rfl, by simp⟩
    · exact ⟨s, ',', [], rfl, .inr rfl, by simp⟩
    · refine ⟨s', o, g ++ [c], by simp, ho, ?_⟩
      rw [List.forall_mem_append]
      exact ⟨hg, by simpa using hc⟩

/-- The flag of the stage says whether what it has passed awaits a key. -/
theorem keyBehind_iff {k : Bool} {s : Text} (hk : k = true ↔ AwaitsKey s) (c : Char) :
    keyBehind k c = true ↔ AwaitsKey (s ++ [c]) := by
  rw [awaitsKey_concat, ← hk, keyBehind]
  simp [or_assoc]

/-- A colon comes next behind a name and blanks. -/
theorem endsKey_of_colonNext {w after : Text} (hw : ∀ c ∈ w, Text.isNamePart c = true)
    (h : ColonNext after) :
    endsKey (w ++ after) = true := by
  obtain ⟨g, r, rfl, hg⟩ := h
  rw [endsKey_append_parts hw, endsKey_append hg rfl rfl]
  rfl

/-! ## The stage finds them -/

/-- `KeysAhead s u`: every bare key of `s ++ u` starts behind `s`. -/
def KeysAhead (s u : Text) : Prop :=
  ∀ before name after, s ++ u = before ++ (name ++ after) → AwaitsKey before → isName name = true →
    ColonNext after → s <+: before

/-- There are no keys ahead in an empty text. -/
theorem keysAhead_nil (u : Text) : KeysAhead [] u :=
  fun _ _ _ _ _ _ _ => List.nil_prefix

/-- What has been passed holds no bare key. -/
theorem KeysAhead.not_holdsKey {s u : Text} (h : KeysAhead s u) : ¬ HoldsKey s := by
  rintro ⟨before, name, after, rfl, hbefore, hname, ⟨g, r, rfl, hg⟩⟩
  have hprefix := h before name (g ++ ':' :: r ++ u) (by simp) hbefore hname
    ⟨g, r ++ u, by simp, hg⟩
  have hlength := hprefix.length_le
  simp only [List.length_append, List.length_cons] at hlength
  omega

/-- Past a character that starts no bare key. -/
theorem KeysAhead.concat {s r : Text} {c : Char} {k : Bool} (h : KeysAhead s (c :: r))
    (hk : k = true ↔ AwaitsKey s) (hkey : (k && Text.isNameStart c && endsKey r) = false) :
    KeysAhead (s ++ [c]) r := by
  intro before name after heq hbefore hname hafter
  rw [List.append_assoc] at heq
  obtain ⟨w, rfl⟩ := h before name after heq hbefore hname hafter
  rw [List.append_assoc, List.append_cancel_left_eq] at heq
  rcases w with _ | ⟨d, w⟩
  · -- a bare key that starts with `c` would have been seen
    obtain ⟨d, v, rfl, hstart, hparts⟩ := exists_of_isName hname
    rw [List.append_nil] at hbefore
    rw [List.singleton_append, List.nil_append, List.cons_append, List.cons.injEq] at heq
    obtain ⟨rfl, rfl⟩ := heq
    rw [List.forall_mem_cons] at hparts
    rw [hk.mpr hbefore, hstart, endsKey_of_colonNext hparts.2 hafter] at hkey
    cases hkey
  · rw [List.singleton_append, List.cons_append, List.cons.injEq] at heq
    obtain ⟨rfl, -⟩ := heq
    exact ⟨w, by simp⟩

/-- A text of code is one run of code for key quoting. -/
theorem quoteKeysIn_of_code {t : Text} (h : ∀ c ∈ t, isCode c = true) (k : Keys) :
    quoteKeysIn k t = quoteKeysFrom k t := by
  by_cases hne : t = []
  · subst hne
    simp [quoteKeysIn, split, splitFrom, ofCode, lead, behind]
  · have hsplit := split_append hne h (r := []) rfl
    rw [List.append_nil] at hsplit
    rw [quoteKeysIn, hsplit]
    simp [lead, behind, split, splitFrom, ofCode]

/-- Behind the name of a key the stage goes on as at the start of code. -/
theorem quoteKeysIn_behind_name {g r : Text} (hg : ∀ c ∈ g, isBlank c = true) :
    quoteKeysIn .elsewhere (g ++ ':' :: r) = g ++ ':' :: quoteKeysIn .elsewhere r := by
  rw [quoteKeysIn_append (by simp) hg, quoteKeysIn_elsewhere_cons rfl]
  rfl

/-- The stage cuts the code `s ++ u` of which it has passed `s`. -/
theorem exists_keysCut_of_length_le {n : Nat} {s u : Text} {k : Bool} (hn : u.length ≤ n)
    (hcode : ∀ c ∈ u, isCode c = true) (hne : s ++ u ≠ []) (hk : k = true ↔ AwaitsKey s)
    (hahead : KeysAhead s u) :
    ∃ pieces, KeysCut (s ++ u) pieces ∧ join pieces = s ++ quoteKeysIn (keysAt k) u := by
  induction n generalizing s u k with
  | zero =>
    obtain rfl := List.length_eq_zero_iff.mp (Nat.le_zero.mp hn)
    rw [List.append_nil] at hne ⊢
    refine ⟨[.code s], .none hne hahead.not_holdsKey, ?_⟩
    cases k <;> simp [text, keysAt, quoteKeysIn_of_code, quoteKeysFrom]
  | succ n ih =>
    rcases u with _ | ⟨c, r⟩
    · exact ih (Nat.zero_le n) hcode hne hk hahead
    rw [List.length_cons] at hn
    obtain ⟨hc, hr⟩ := List.forall_mem_cons.mp hcode
    rcases hkey : k && Text.isNameStart c && endsKey r with _ | _
    · have hstep : s ++ c :: r = s ++ [c] ++ r := by simp
      obtain ⟨pieces, hcut, hjoin⟩ := ih (by omega) hr (by simp) (keyBehind_iff hk c)
        (hahead.concat hk hkey)
      rw [hstep, quoteKeysIn_code hc hkey]
      exact ⟨pieces, hcut, by simpa using hjoin⟩
    · simp only [Bool.and_eq_true] at hkey
      obtain ⟨⟨rfl, hstart⟩, hends⟩ := hkey
      obtain ⟨name, g, r', hname, hg, htext⟩ := exists_key hstart hends
      rw [htext] at hcode hahead ⊢
      rw [List.forall_mem_append] at hcode
      have hshorter : (g ++ ':' :: r').length ≤ n := by
        obtain ⟨d, v, rfl, -⟩ := exists_of_isName hname
        have := congrArg List.length htext
        simp only [List.length_append, List.length_cons] at this ⊢
        omega
      -- behind the key everything starts anew
      obtain ⟨pieces, hcut, hjoin⟩ := ih (s := []) (k := false) hshorter hcode.2 (by simp)
        (by simp [not_awaitsKey_nil]) (keysAhead_nil _)
      refine ⟨_, .key (hk.mp rfl) hahead.not_holdsKey hname ⟨g, r', rfl, hg⟩ hcut, ?_⟩
      have hexpected : keysAt true = .expected := rfl
      have helsewhere : keysAt false = .elsewhere := rfl
      rw [List.nil_append, helsewhere, quoteKeysIn_behind_name hg] at hjoin
      rw [hexpected, quoteKeysIn_name hname hg, join_cons, join_cons, hjoin]
      simp [text]

/-- **The stage puts quotes around the bare keys of code, and around nothing else.** -/
theorem exists_keysCut {t : Text} (hne : t ≠ []) (hcode : ∀ c ∈ t, isCode c = true) :
    ∃ pieces, KeysCut t pieces ∧ join pieces = quoteKeysFrom .elsewhere t := by
  rw [← quoteKeysIn_of_code hcode]
  exact exists_keysCut_of_length_le (s := []) (k := false) (Nat.le_refl t.length) hcode hne
    (by simp [not_awaitsKey_nil]) (keysAhead_nil t)

/-- Code without bare keys is left as it is. -/
theorem quoteKeysFrom_of_not_holdsKey {t : Text} (hne : t ≠ []) (hcode : ∀ c ∈ t, isCode c = true)
    (h : ¬ HoldsKey t) : quoteKeysFrom .elsewhere t = t := by
  obtain ⟨pieces, hcut, hjoin⟩ := exists_keysCut hne hcode
  rw [← hjoin]
  cases hcut with
  | none => simp [text]
  | key hbefore _ hname hafter _ => exact absurd ⟨_, _, _, rfl, hbefore, hname, hafter⟩ h

end ShapedReply
