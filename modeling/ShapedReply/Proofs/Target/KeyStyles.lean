import ShapedReply.Proofs.Target.KeyWords

/-!
# Snake style undoes the other styles

Words can be written together in five ways: in camel case, with a capital for every word, with
hyphens, with blanks, and with underscores. `snake_of_styles`: **the snake style of words in any of
the five is the words joined by underscores.**

Between words that are joined by blanks or hyphens any row of them may stand, another one in each
place. It becomes one underscore (`joinWords_separated`), and nothing is trimmed, since a word
stands at both ends (`trim_separated`).
-/

namespace ShapedReply.KeyStyle

/-! ## The styles -/

/-- Words with a capital for each. -/
def pascal (words : List Text) : Text :=
  words.flatMap capitalized

/-- Words joined by hyphens. -/
def hyphenated (words : List Text) : Text :=
  List.intercalate ['-'] words

/-- `Separated words key`: the key is the words one after the other, and between each two stands a
row of blanks or hyphens. -/
inductive Separated : List Text → Text → Prop where
  | word (w : Text) : Separated [w] w
  | cons {w g key : Text} {words : List Text} : g ≠ [] → (∀ c ∈ g, isSeparator c = true) →
      Separated words key → Separated (w :: words) (w ++ (g ++ key))

/-- The same row may stand everywhere. -/
theorem separated_intercalate {g : Text} (hne : g ≠ []) (hg : ∀ c ∈ g, isSeparator c = true)
    (w : Text) (ws : List Text) : Separated (w :: ws) (List.intercalate g (w :: ws)) := by
  induction ws generalizing w with
  | nil =>
    rw [List.intercalate_singleton]
    exact .word w
  | cons v ws ih =>
    rw [List.intercalate_cons_cons, List.append_assoc]
    exact .cons hne hg (ih v)

/-- Between two words stands an underscore. -/
theorem underscored_cons_cons (w v : Text) (ws : List Text) :
    underscored (w :: v :: ws) = w ++ '_' :: underscored (v :: ws) := by
  rw [underscored, List.intercalate_cons_cons, ← underscored, List.append_assoc]
  rfl

/-! ## Capitals -/

/-- Snake style finds the words that have a capital each. -/
theorem snake_pascal {words : List Text} (h : ∀ w ∈ words, isWord w = true) :
    snake (pascal words) = underscored words := by
  cases words with
  | nil => rfl
  | cons w ws =>
    obtain ⟨hw, hws⟩ := List.forall_mem_cons.mp h
    obtain ⟨c, r, rfl, hc, hne, hr⟩ := exists_of_isWord hw
    obtain ⟨hcapital, hlower⟩ := upper_of_isSmall hc
    have hkey : isKeyChar c.toUpper = true := by simp [isKeyChar, hcapital]
    rw [pascal, List.flatMap_cons, capitalized, List.cons_append, snake_first_humps hkey hne hr hws,
      hlower, underscored_cons]
    rfl

/-! ## Blanks and hyphens -/

/-- A word has no separators, and it is not empty. -/
theorem isSeparator_of_isWord {w : Text} (h : isWord w = true) :
    w ≠ [] ∧ ∀ c ∈ w, isSeparator c = false := by
  have hparts := isWordPart_of_isWord h
  obtain ⟨c, r, rfl, -⟩ := exists_of_isWord h
  exact ⟨List.cons_ne_nil c r,
    fun d hd => isSeparator_of_isKeyChar (isKeyChar_of_isWordPart (hparts d hd))⟩

/-- Behind characters that separate nothing, a row of separators starts anew. -/
theorem joinWords_append {w : Text} (hne : w ≠ []) (hw : ∀ c ∈ w, isSeparator c = false)
    (inRow : Bool) (t : Text) : joinWords inRow (w ++ t) = w ++ joinWords false t := by
  induction w generalizing inRow with
  | nil => exact absurd rfl hne
  | cons c w ih =>
    obtain ⟨hc, hw⟩ := List.forall_mem_cons.mp hw
    rw [List.cons_append, joinWords, hc, if_neg (by decide)]
    by_cases hlast : w = []
    · subst hlast
      rfl
    · rw [ih hlast hw, List.cons_append]

/-- The rest of a row of separators goes. -/
theorem joinWords_row {g : Text} (hg : ∀ c ∈ g, isSeparator c = true) (t : Text) :
    joinWords true (g ++ t) = joinWords true t := by
  induction g with
  | nil => rfl
  | cons c g ih =>
    obtain ⟨hc, hg⟩ := List.forall_mem_cons.mp hg
    rw [List.cons_append, joinWords, if_pos hc, if_pos rfl, ih hg]

/-- Each row of separators becomes one underscore. -/
theorem joinWords_separated {words : List Text} {key : Text} (hkey : Separated words key)
    (h : ∀ w ∈ words, isWord w = true) (inRow : Bool) :
    joinWords inRow key = underscored words := by
  induction hkey generalizing inRow with
  | word w =>
    obtain ⟨-, hw⟩ := isSeparator_of_isWord (h w List.mem_cons_self)
    rw [joinWords_of_forall hw, underscored, List.intercalate_singleton]
  | @cons w g key words hne hg hkey ih =>
    obtain ⟨hword, hwords⟩ := List.forall_mem_cons.mp h
    obtain ⟨hwne, hw⟩ := isSeparator_of_isWord hword
    obtain ⟨c, g, rfl⟩ := List.exists_cons_of_ne_nil hne
    obtain ⟨hc, hg⟩ := List.forall_mem_cons.mp hg
    have hrow : joinWords false (c :: (g ++ key)) = '_' :: underscored words := by
      rw [joinWords, if_pos hc, if_neg (by decide), joinWords_row hg, ih hwords]
    obtain ⟨v, ws, rfl⟩ : ∃ v ws, words = v :: ws := by
      cases hkey with
      | word => exact ⟨_, [], rfl⟩
      | cons => exact ⟨_, _, rfl⟩
    rw [joinWords_append hwne hw, List.cons_append, hrow, underscored_cons_cons]

/-- A word stands at the start and at the end. -/
theorem Separated.edges {words : List Text} {key : Text} (hkey : Separated words key)
    (h : ∀ w ∈ words, isWord w = true) :
    (∃ c s, key = c :: s ∧ isSeparator c = false) ∧
      ∃ s c, key = s ++ [c] ∧ isSeparator c = false := by
  have hstart {w : Text} (hw : isWord w = true) (t : Text) :
      ∃ c s, w ++ t = c :: s ∧ isSeparator c = false := by
    obtain ⟨-, hall⟩ := isSeparator_of_isWord hw
    obtain ⟨c, r, rfl, -⟩ := exists_of_isWord hw
    exact ⟨c, r ++ t, rfl, hall c List.mem_cons_self⟩
  induction hkey with
  | word w =>
    have hw := h w List.mem_cons_self
    obtain ⟨hne, hall⟩ := isSeparator_of_isWord hw
    refine ⟨by simpa using hstart hw [], w.dropLast, w.getLast hne, ?_,
      hall _ (List.getLast_mem hne)⟩
    exact (List.dropLast_append_getLast hne).symm
  | @cons w g key words _ _ _ ih =>
    obtain ⟨hw, hwords⟩ := List.forall_mem_cons.mp h
    obtain ⟨-, s, c, rfl, hc⟩ := ih hwords
    exact ⟨hstart hw _, w ++ (g ++ s), c, by simp, hc⟩

/-- Nothing is trimmed from words that are joined by separators. -/
theorem trim_separated {words : List Text} {key : Text} (hkey : Separated words key)
    (h : ∀ w ∈ words, isWord w = true) : Text.trim key = key := by
  obtain ⟨⟨c, s, hstart, hc⟩, s', c', hend, hc'⟩ := hkey.edges h
  rw [isSeparator, Bool.or_eq_false_iff] at hc hc'
  have hnone : ∀ d ∈ ([] : Text), Text.isBlank d = true := by simp
  have := Text.trim_append hnone hnone hstart hc.1 hend hc'.1
  rwa [List.nil_append, List.append_nil] at this

/-- Snake style finds the words that blanks or hyphens separate. -/
theorem snake_separated {words : List Text} {key : Text} (hkey : Separated words key)
    (h : ∀ w ∈ words, isWord w = true) : snake key = underscored words := by
  rw [snake, trim_separated hkey h, joinWords_separated hkey h, lower_split_underscored h]

/-- **Snake style undoes every other style.** Words in camel case, with a capital for each, joined
by hyphens, joined by blanks (or by any rows of blanks and hyphens) or joined by underscores become
the words joined by underscores. A word is a small letter and at least one more small letter or
digit. -/
theorem snake_of_styles {words : List Text} (h : ∀ w ∈ words, isWord w = true) :
    snake (camel words) = underscored words ∧ snake (pascal words) = underscored words ∧
      snake (hyphenated words) = underscored words ∧
      (∀ key, Separated words key → snake key = underscored words) ∧
      snake (underscored words) = underscored words := by
  refine ⟨snake_camel h, snake_pascal h, ?_, fun key hkey => snake_separated hkey h,
    snake_underscored h⟩
  cases words with
  | nil => rfl
  | cons w ws => exact snake_separated (separated_intercalate (by simp) (by decide) w ws) h

/-- Words with digits at their ends and inside. -/
def roomWords : List Text := ["room".toList, "no2".toList, "x9a".toList]

/-- Words with digits, in each of the styles. -/
theorem snake_of_styles_roomWords :
    (∀ w ∈ roomWords, isWord w = true) ∧ Separated roomWords "room \t-no2-x9a".toList ∧
      snake "roomNo2X9a".toList = "room_no2_x9a".toList ∧
      snake "RoomNo2X9a".toList = "room_no2_x9a".toList ∧
      snake "room-no2-x9a".toList = "room_no2_x9a".toList ∧
      snake "room \t-no2-x9a".toList = "room_no2_x9a".toList ∧
      snake "room_no2_x9a".toList = "room_no2_x9a".toList := by
  have hwords : ∀ w ∈ roomWords, isWord w = true := by decide
  have hseparated : Separated roomWords "room \t-no2-x9a".toList :=
    .cons (g := " \t-".toList) (by decide) (by decide)
      (.cons (g := "-".toList) (by decide) (by decide) (.word "x9a".toList))
  obtain ⟨hcamel, hpascal, hhyphens, hblanks, hunderscores⟩ := snake_of_styles hwords
  exact ⟨hwords, hseparated, hcamel, hpascal, hhyphens, hblanks _ hseparated, hunderscores⟩

end ShapedReply.KeyStyle
