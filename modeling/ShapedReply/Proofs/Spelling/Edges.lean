import ShapedReply.Proofs.Reading.Number
import ShapedReply.Proofs.Spelling.Basic

/-!
# Where a tree starts and ends

Scans of a text look at single characters: a blank, a bracket, a comma, a slash, a part of a number.
What a tree can start with, what it can end with and what its words are made of are three short
lists of characters, whatever pen writes the tree. A fact about all of them is then a check of a
list.

* `mem_wordParts`: the characters of a word.
* `exists_text_eq_cons`, `exists_text_eq_concat`: **a tree starts with one of `valueStarts` and ends
  with one of `valueEnds`**, if its strings do.
-/

namespace ShapedReply.Spelling

open Text Reader

/-! ## The characters of words -/

/-- A property of the first 128 characters holds of each character among them. -/
theorem forall_of_toNat_lt {P : Char → Prop} (h : ∀ n < 128, P (Char.ofNat n)) (c : Char)
    (hc : c.toNat < 128) : P c :=
  Char.ofNat_toNat c ▸ h c.toNat hc

/-- The digits. -/
def digits : List Char := ['0', '1', '2', '3', '4', '5', '6', '7', '8', '9']

/-- The characters of number literals. -/
def numberParts : List Char := digits ++ ['-', '+', '.', 'e', 'E']

/-- The characters of words. -/
def wordParts : List Char := numberParts ++ ['n', 'u', 'l', 't', 'r', 'f', 'a', 's']

/-- The digits are the ten characters from zero to nine. -/
theorem mem_digits {c : Char} (h : Text.isAsciiDigit c = true) : c ∈ digits := by
  have hle : c ≤ '9' := by
    simp only [Text.isAsciiDigit, Bool.and_eq_true, decide_eq_true_eq] at h
    exact h.2
  have hlt : c.toNat < 128 := by
    have : c.toNat ≤ 57 := UInt32.le_iff_toNat_le.mp (Char.le_def.mp hle)
    omega
  exact forall_of_toNat_lt (P := fun c => Text.isAsciiDigit c = true → c ∈ digits)
    (by decide) c hlt h

/-- A part of a number is a digit, a sign, a point or the letter of an exponent. -/
theorem mem_numberParts {c : Char} (h : isNumberPart c = true) : c ∈ numberParts := by
  rw [numberParts, List.mem_append]
  by_cases hd : Text.isAsciiDigit c = true
  · exact .inl (mem_digits hd)
  · right
    simp only [isNumberPart, hd, Bool.false_or, Bool.or_eq_true, beq_iff_eq] at h
    rcases h with (((rfl | rfl) | rfl) | rfl) | rfl <;> decide

/-- A word is made of the characters of numbers and of the three names. -/
theorem mem_wordParts (w : Word) : ∀ c ∈ w.text, c ∈ wordParts := by
  cases w with
  | null => decide
  | bool b => cases b <;> decide
  | number t v reads =>
    intro c hc
    obtain ⟨w, ht, hparts, -, -⟩ := number_eq_ok reads
    rw [List.append_nil] at ht
    subst ht
    exact List.mem_append_left _ (mem_numberParts (hparts c hc))

/-! ## Starts and ends -/

/-- What a value can start with. -/
def valueStarts : List Char := digits ++ ['-', 'n', 't', 'f', '[', '{', '"', '\'']

/-- What a value can end with. -/
def valueEnds : List Char := wordParts ++ [']', '}', '"', '\'']

/-- What a word starts with. -/
theorem exists_word_eq_cons (w : Word) : ∃ c r, w.text = c :: r ∧ c ∈ valueStarts := by
  cases w with
  | null => exact ⟨_, _, rfl, by decide⟩
  | bool b => cases b <;> exact ⟨_, _, rfl, by decide⟩
  | number t v reads =>
    obtain ⟨w, ht, -, hstart, -⟩ := number_eq_ok reads
    rw [List.append_nil] at ht
    subst ht
    rcases hstart with ⟨c, w', rfl, hc⟩ | ⟨c, w', rfl, -⟩
    · exact ⟨c, w', rfl, List.mem_append_left _ (mem_digits hc)⟩
    · exact ⟨'-', c :: w', rfl, by decide⟩

/-- A tree starts with what a value can start with, if strings do. -/
theorem exists_text_eq_cons {pen : Pen}
    (hpen : ∀ s, ∃ c r, pen.string s = c :: r ∧ c ∈ valueStarts) (T : Tree) :
    ∃ c r, T.text pen = c :: r ∧ c ∈ valueStarts := by
  cases T with
  | word w =>
    rw [Tree.text]
    exact exists_word_eq_cons w
  | string s =>
    rw [Tree.text]
    exact hpen s
  | empty k inside => cases k <;> exact ⟨_, _, rfl, by decide⟩
  | filled k es =>
    rw [Tree.text]
    cases k <;> exact ⟨_, _, rfl, by decide⟩

/-- The entries of a container end with its closing bracket. -/
theorem Entries.exists_text_eq_concat (pen : Pen) {k : Container} :
    (es : Entries k) → ∃ r, es.text pen = r ++ [k.closer]
  | .last _ _ _ _ => ⟨_, by rw [Entries.text]⟩
  | .more _ _ _ rest => by
    obtain ⟨r, hr⟩ := rest.exists_text_eq_concat pen
    rw [Entries.text, hr, ← List.cons_append, ← List.append_assoc]
    exact ⟨_, rfl⟩

/-- A tree ends with what a value can end with, if strings do. -/
theorem exists_text_eq_concat {pen : Pen}
    (hpen : ∀ s, ∃ r c, pen.string s = r ++ [c] ∧ c ∈ valueEnds) (T : Tree) :
    ∃ r c, T.text pen = r ++ [c] ∧ c ∈ valueEnds := by
  have hcloser : ∀ k : Container, k.closer ∈ valueEnds := by
    intro k
    cases k <;> decide
  cases T with
  | word w =>
    obtain ⟨c, r, hw, -⟩ := exists_word_eq_cons w
    have hne : w.text ≠ [] := by simp [hw]
    refine ⟨w.text.dropLast, w.text.getLast hne, ?_, ?_⟩
    · rw [Tree.text, List.dropLast_concat_getLast hne]
    · exact List.mem_append_left _ (mem_wordParts w _ (List.getLast_mem hne))
  | string s =>
    rw [Tree.text]
    exact hpen s
  | empty k inside =>
    refine ⟨k.opener :: pen.gap inside, k.closer, ?_, hcloser k⟩
    rw [Tree.text, List.cons_append]
  | filled k es =>
    obtain ⟨r, hr⟩ := es.exists_text_eq_concat pen
    refine ⟨k.opener :: r, k.closer, ?_, hcloser k⟩
    rw [Tree.text, hr, List.cons_append]

end ShapedReply.Spelling
