import Mathlib.Data.List.DropRight
import Mathlib.Data.List.Induction
import ShapedReply.Text.Blank

/-!
# Trimming

What trimming leaves of a text that is given in parts. Trimming at the end is `List.rdropWhile`, so
the lemmas go character by character from the end.

* `trimEnd_append`: behind a character that is no blank, only what follows it is trimmed.
* `trim_append`: **a text without blanks at its ends is what trimming leaves of it with blanks
  around.**
-/

namespace ShapedReply.Text

/-- The blanks of strict text are blanks. -/
theorem forall_isBlank {g : Text} (hg : ∀ c ∈ g, isValueBlank c = true) :
    ∀ c ∈ g, isBlank c = true :=
  fun c hc => isBlank_of_isValueBlank (hg c hc)

/-- Blanks at the start go. -/
theorem trimStart_append {g : Text} (hg : ∀ c ∈ g, isBlank c = true) (t : Text) :
    trimStart (g ++ t) = trimStart t :=
  List.dropWhile_append_of_pos hg

/-- A text that starts with no blank keeps its start. -/
theorem trimStart_cons {c : Char} (hc : isBlank c = false) (t : Text) :
    trimStart (c :: t) = c :: t :=
  List.dropWhile_cons_of_neg (by simp [hc])

/-- A blank at the start goes. -/
theorem trimStart_cons_of_blank {c : Char} (hc : isBlank c = true) (t : Text) :
    trimStart (c :: t) = trimStart t :=
  List.dropWhile_cons_of_pos hc

/-- Blanks leave nothing. -/
theorem trimStart_blanks {g : Text} (hg : ∀ c ∈ g, isBlank c = true) : trimStart g = [] := by
  have := trimStart_append hg []
  rwa [List.append_nil] at this

/-- Blanks at the end do not change what comes first behind the blanks at the start. -/
theorem head?_trimStart_append (t : Text) {g : Text} (hg : ∀ c ∈ g, isBlank c = true) :
    (trimStart (t ++ g)).head? = (trimStart t).head? := by
  induction t with
  | nil =>
    rw [List.nil_append, trimStart_blanks hg]
    rfl
  | cons c t ih =>
    rcases hc : isBlank c with _ | _
    · rw [List.cons_append, trimStart_cons hc, trimStart_cons hc]
      rfl
    · rw [List.cons_append, trimStart_cons_of_blank hc, ih, trimStart_cons_of_blank hc]

/-- Before a character that is no blank, only what precedes it is trimmed. -/
theorem trimStart_append_cons {c : Char} (hc : isBlank c = false) (s t : Text) :
    trimStart (s ++ c :: t) = trimStart s ++ c :: t := by
  induction s with
  | nil => exact trimStart_cons hc t
  | cons d s ih =>
    rcases hd : isBlank d with _ | _
    · rw [List.cons_append, trimStart_cons hd, trimStart_cons hd]
      rfl
    · rw [List.cons_append, trimStart_cons_of_blank hd, ih, trimStart_cons_of_blank hd]

/-- A blank at the end goes. -/
theorem trimEnd_concat_of_blank {c : Char} (hc : isBlank c = true) (t : Text) :
    trimEnd (t ++ [c]) = trimEnd t :=
  List.rdropWhile_concat_pos isBlank t c hc

/-- A text that ends with no blank keeps its end. -/
theorem trimEnd_concat {c : Char} (hc : isBlank c = false) (t : Text) :
    trimEnd (t ++ [c]) = t ++ [c] :=
  List.rdropWhile_concat_neg isBlank t c (by simp [hc])

/-- Behind a character that is no blank, only what follows it is trimmed. -/
theorem trimEnd_append {c : Char} (hc : isBlank c = false) (s t : Text) :
    trimEnd (s ++ c :: t) = s ++ c :: trimEnd t := by
  induction t using List.reverseRecOn with
  | nil => exact trimEnd_concat hc s
  | append_singleton t d ih =>
    rw [← List.cons_append, ← List.append_assoc]
    rcases hd : isBlank d with _ | _
    · rw [trimEnd_concat hd, trimEnd_concat hd]
      simp
    · rw [trimEnd_concat_of_blank hd, trimEnd_concat_of_blank hd, ih]

/-- What trimming leaves at the end is a part of the text. -/
theorem mem_of_mem_trimEnd {c : Char} {t : Text} (h : c ∈ trimEnd t) : c ∈ t :=
  (List.rdropWhile_prefix isBlank t).mem h

/-- A text is what trimming leaves of it at the end, and blanks. -/
theorem exists_trimEnd_append (t : Text) : ∃ g, t = trimEnd t ++ g ∧ ∀ c ∈ g, isBlank c = true := by
  refine ⟨t.rtakeWhile isBlank, List.rdropWhile_append_rtakeWhile.symm, ?_⟩
  intro c hc
  rw [List.rtakeWhile, List.mem_reverse] at hc
  exact List.all_eq_true.mp List.all_takeWhile c hc

/-- Blanks at the end go. -/
theorem trimEnd_append_of_blank {g : Text} (hg : ∀ c ∈ g, isBlank c = true) (t : Text) :
    trimEnd (t ++ g) = trimEnd t := by
  induction g using List.reverseRecOn with
  | nil => rw [List.append_nil]
  | append_singleton g d ih =>
    rw [List.forall_mem_append] at hg
    rw [← List.append_assoc, trimEnd_concat_of_blank (hg.2 d List.mem_cons_self), ih hg.1]

/-- A text is what trimming leaves of it, between blanks. -/
theorem exists_trim_append (t : Text) : ∃ g g', t = g ++ (trim t ++ g') ∧
    (∀ c ∈ g, isBlank c = true) ∧ ∀ c ∈ g', isBlank c = true := by
  obtain ⟨g', hend, hg'⟩ := exists_trimEnd_append (trimStart t)
  have hstart : t.takeWhile isBlank ++ trimStart t = t := List.takeWhile_append_dropWhile
  refine ⟨t.takeWhile isBlank, g', ?_, fun c hc => List.all_eq_true.mp List.all_takeWhile c hc, hg'⟩
  rw [trim, ← hend, hstart]

/-- What trimming leaves is a part of the text. -/
theorem trim_sublist (t : Text) : List.Sublist (trim t) t :=
  (List.rdropWhile_prefix isBlank _).sublist.trans (List.dropWhile_sublist isBlank)

/-- What trimming leaves at the end ends with no blank. -/
theorem isBlank_of_trimEnd {t s : Text} {c : Char} (h : trimEnd t = s ++ [c]) :
    isBlank c = false := by
  have hdrop : t.rdropWhile isBlank = s ++ [c] := h
  have hne : t.rdropWhile isBlank ≠ [] := by
    rw [hdrop]
    simp
  have hlast := List.rdropWhile_last_not isBlank t hne
  simpa [hdrop] using hlast

/-- What trimming leaves starts with no blank. -/
theorem isBlank_of_trim {t s : Text} {c : Char} (h : trim t = c :: s) : isBlank c = false := by
  have hbeginning : c :: s <+: trimStart t := h ▸ List.rdropWhile_prefix isBlank (trimStart t)
  obtain ⟨r, hr⟩ := hbeginning
  rcases hc : isBlank c with _ | _
  · rfl
  · have hhead := List.head?_dropWhile_not isBlank t
    rw [← trimStart, ← hr] at hhead
    simp [hc] at hhead

/-- A text without blanks has nothing to trim. -/
theorem trim_of_forall {t : Text} (h : ∀ c ∈ t, isBlank c = false) : trim t = t := by
  have hdrop {s : Text} (hs : ∀ c ∈ s, isBlank c = false) : s.dropWhile isBlank = s := by
    cases s with
    | nil => rfl
    | cons c s => exact trimStart_cons (hs c List.mem_cons_self) s
  rw [trim, trimStart, hdrop h, trimEnd, hdrop fun c hc => h c (List.mem_reverse.mp hc),
    List.reverse_reverse]

/-- Trimming twice is trimming once. -/
theorem trim_trim (t : Text) : trim (trim t) = trim t := by
  have hend : trimEnd (trim t) = trim t := List.rdropWhile_idempotent isBlank (trimStart t)
  have hstart : trimStart (trim t) = trim t := by
    rcases h : trim t with _ | ⟨c, s⟩
    · rfl
    · exact trimStart_cons (isBlank_of_trim h) s
  rw [trim, hstart, hend]

/-- **Trimming takes the blanks around a text that has none at its ends.** -/
theorem trim_append {g g' t s s' : Text} {c c' : Char} (hg : ∀ d ∈ g, isBlank d = true)
    (hg' : ∀ d ∈ g', isBlank d = true) (hstart : t = c :: s) (hc : isBlank c = false)
    (hend : t = s' ++ [c']) (hc' : isBlank c' = false) : trim (g ++ t ++ g') = t := by
  have hleft : trimStart (g ++ t ++ g') = t ++ g' := by
    rw [List.append_assoc, trimStart_append hg, hstart, List.cons_append, trimStart_cons hc]
  rw [trim, hleft, trimEnd_append_of_blank hg', hend, trimEnd_concat hc']

end ShapedReply.Text
