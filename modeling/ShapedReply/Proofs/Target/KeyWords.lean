import ShapedReply.KeyStyle
import ShapedReply.Proofs.Spelling.Edges
import ShapedReply.Proofs.Text.Trim

/-!
# Keys made of words

A key is made of words, and a style is a way to write them together. Snake style finds the words of
a key in camel case again: **the snake style of words in camel case, and of words joined by
underscores, is the words joined by underscores** (`snake_camel`, `snake_underscored`).

Words have two characters at least, so that no two capitals of a key in camel case are neighbours:
the rule for acronyms never applies (`splitAcronyms_humps`), and every capital behind the first word
starts a hump (`splitHumps_humps`).
-/

namespace ShapedReply.KeyStyle

/-! ## Words -/

/-- Whether a character can stand inside a word. -/
def isWordPart (c : Char) : Bool := isSmall c || ('0' ≤ c && c ≤ '9')

/-- Whether a text is a word: a small letter, then small letters and digits, one at least. -/
def isWord : Text → Bool
  | c :: d :: r => isSmall c && (d :: r).all isWordPart
  | _ => false

/-- A word with a capital in front. -/
def capitalized : Text → Text
  | [] => []
  | c :: r => c.toUpper :: r

/-- Words in camel case. -/
def camel : List Text → Text
  | [] => []
  | w :: ws => w ++ ws.flatMap capitalized

/-- Words joined by underscores. -/
def underscored (words : List Text) : Text :=
  List.intercalate ['_'] words

/-- Before each further word stands an underscore. -/
theorem underscored_cons (w : Text) (ws : List Text) :
    underscored (w :: ws) = w ++ ws.flatMap ('_' :: ·) := by
  induction ws generalizing w with
  | nil => simp [underscored]
  | cons v ws ih =>
    rw [underscored, List.intercalate_cons_cons, ← underscored, ih, List.flatMap_cons]
    simp

/-! ## Characters -/

/-- Whether a character stands in keys of either style. -/
def isKeyChar (c : Char) : Bool := isWordPart c || isCapital c || c == '_'

/-- The characters of keys are ASCII. -/
theorem toNat_lt_of_isKeyChar {c : Char} (h : isKeyChar c = true) : c.toNat < 128 := by
  have hle (d : Char) (hd : d.toNat < 128) (h : c ≤ d) : c.toNat < 128 :=
    Nat.lt_of_le_of_lt (UInt32.le_iff_toNat_le.mp h) hd
  simp only [isKeyChar, isWordPart, isSmall, isCapital, Bool.or_eq_true, Bool.and_eq_true,
    decide_eq_true_eq, beq_iff_eq] at h
  rcases h with ((h | h) | h) | rfl
  · exact hle 'z' (by decide) h.2
  · exact hle '9' (by decide) h.2
  · exact hle 'Z' (by decide) h.2
  · decide

/-- The characters of words are characters of keys. -/
theorem isKeyChar_of_isWordPart {c : Char} (h : isWordPart c = true) : isKeyChar c = true := by
  simp [isKeyChar, h]

/-- The characters of keys are neither blanks nor hyphens. -/
theorem isSeparator_of_isKeyChar {c : Char} (h : isKeyChar c = true) : isSeparator c = false :=
  Spelling.forall_of_toNat_lt (P := fun c => isKeyChar c = true → isSeparator c = false) (by decide)
    c (toNat_lt_of_isKeyChar h) h

/-- What stands inside a word is in lower case. -/
theorem lower_of_isWordPart {c : Char} (h : isWordPart c = true) :
    isCapital c = false ∧ c.toLower = c :=
  Spelling.forall_of_toNat_lt
    (P := fun c => isWordPart c = true → isCapital c = false ∧ c.toLower = c) (by decide) c
    (toNat_lt_of_isKeyChar (isKeyChar_of_isWordPart h)) h

/-- A small letter has a capital. -/
theorem upper_of_isSmall {c : Char} (h : isSmall c = true) :
    isCapital c.toUpper = true ∧ c.toUpper.toLower = c := by
  have hpart : isWordPart c = true := by simp [isWordPart, h]
  exact Spelling.forall_of_toNat_lt
    (P := fun c => isSmall c = true → isCapital c.toUpper = true ∧ c.toUpper.toLower = c)
    (by decide)
    c (toNat_lt_of_isKeyChar (isKeyChar_of_isWordPart hpart)) h

/-- A word is a small letter and at least one more character. -/
theorem exists_of_isWord {w : Text} (h : isWord w = true) :
    ∃ c r, w = c :: r ∧ isSmall c = true ∧ r ≠ [] ∧ ∀ d ∈ r, isWordPart d = true := by
  match w, h with
  | c :: d :: r, h =>
    rw [isWord, Bool.and_eq_true, List.all_eq_true] at h
    exact ⟨c, d :: r, rfl, h.1, List.cons_ne_nil d r, h.2⟩

/-- Words are made of their characters. -/
theorem isWordPart_of_isWord {w : Text} (h : isWord w = true) : ∀ c ∈ w, isWordPart c = true := by
  obtain ⟨c, r, rfl, hc, -, hr⟩ := exists_of_isWord h
  exact List.forall_mem_cons.mpr ⟨by simp [isWordPart, hc], hr⟩

/-! ## The passes of snake style -/

/-- A text without separators has nothing to join. -/
theorem joinWords_of_forall {t : Text} (h : ∀ c ∈ t, isSeparator c = false) (inRow : Bool) :
    joinWords inRow t = t := by
  induction t generalizing inRow with
  | nil => rfl
  | cons c t ih =>
    obtain ⟨hc, ht⟩ := List.forall_mem_cons.mp h
    simp [joinWords, hc, ih ht]

/-- Nothing is trimmed from keys, and nothing separates their words. -/
theorem snake_eq {key : Text} (h : ∀ c ∈ key, isKeyChar c = true) :
    snake key = Text.lower (splitHumps none (splitAcronyms none key)) := by
  have hseparator : ∀ c ∈ key, isSeparator c = false := fun c hc =>
    isSeparator_of_isKeyChar (h c hc)
  have hblank : ∀ c ∈ key, Text.isBlank c = false := by
    intro c hc
    have hboth := hseparator c hc
    rw [isSeparator, Bool.or_eq_false_iff] at hboth
    exact hboth.1
  rw [snake, Text.trim_of_forall hblank, joinWords_of_forall hseparator]

/-- Lower case of plain characters. -/
theorem lower_eq_map {t : Text} (h : ∀ c ∈ t, isKeyChar c = true) :
    Text.lower t = t.map Char.toLower := by
  have hafter (before : Text) : Text.lowerAfter before t = t.map Char.toLower := by
    induction t generalizing before with
    | nil => rfl
    | cons c t ih =>
      obtain ⟨hc, ht⟩ := List.forall_mem_cons.mp h
      have hlow := toNat_lt_of_isKeyChar hc
      have hsigma : c.toNat ≠ 0x3A3 := by omega
      rw [Text.lowerAfter, if_neg hsigma, Text.lowerChar, if_pos hlow, ih ht]
      rfl
  exact hafter []

/-- A pass that writes the characters of a kind as they are goes past a text of them, and has the
last of them before the rest. -/
theorem exists_pass_append {pass : Option Char → Text → Text} {P : Char → Prop}
    (hstep : ∀ before c t, P c → pass before (c :: t) = c :: pass (some c) t)
    {w : Text} (hw : ∀ c ∈ w, P c) (hne : w ≠ []) (before : Option Char) (t : Text) :
    ∃ d, P d ∧ pass before (w ++ t) = w ++ pass (some d) t := by
  induction w generalizing before with
  | nil => exact absurd rfl hne
  | cons c w ih =>
    obtain ⟨hc, hw⟩ := List.forall_mem_cons.mp hw
    rw [List.cons_append, hstep before c (w ++ t) hc]
    by_cases hlast : w = []
    · subst hlast
      exact ⟨c, hc, rfl⟩
    · obtain ⟨d, hd, hrest⟩ := ih hw hlast (some c)
      exact ⟨d, hd, by rw [hrest, List.cons_append]⟩

/-- Acronyms end at capitals only. -/
theorem splitAcronyms_cons {c : Char} (hc : isCapital c = false) (before : Option Char) (t : Text) :
    splitAcronyms before (c :: t) = c :: splitAcronyms (some c) t := by
  rw [splitAcronyms, hc]
  simp

/-- Humps start at capitals only. -/
theorem splitHumps_cons {c : Char} (hc : isCapital c = false) (before : Option Char) (t : Text) :
    splitHumps before (c :: t) = c :: splitHumps (some c) t := by
  rw [splitHumps, hc]
  simp

/-- No capital of a row precedes where there is none. -/
theorem splitAcronyms_append {w : Text} (hw : ∀ c ∈ w, isCapital c = false) (hne : w ≠ [])
    (before : Option Char) (t : Text) :
    ∃ d, isCapital d = false ∧ splitAcronyms before (w ++ t) = w ++ splitAcronyms (some d) t := by
  refine exists_pass_append (fun before c t hc => ?_) hw hne before t
  exact splitAcronyms_cons hc before t

/-- The humps of a key in camel case have no acronyms: behind a capital there is none. -/
theorem splitAcronyms_humps {ws : List Text} (hws : ∀ w ∈ ws, isWord w = true) {before : Char}
    (hbefore : isCapital before = false) :
    splitAcronyms (some before) (ws.flatMap capitalized) = ws.flatMap capitalized := by
  induction ws generalizing before with
  | nil => rfl
  | cons w ws ih =>
    obtain ⟨hw, hlater⟩ := List.forall_mem_cons.mp hws
    obtain ⟨c, r, rfl, -, hne, hr⟩ := exists_of_isWord hw
    have hsmall : ∀ d ∈ r, isCapital d = false := fun d hd => (lower_of_isWordPart (hr d hd)).1
    rw [List.flatMap_cons, capitalized, List.cons_append, splitAcronyms]
    obtain ⟨d, hd, hrest⟩ := splitAcronyms_append hsmall hne (some c.toUpper)
      (ws.flatMap capitalized)
    simp [hbefore, hrest, ih hlater hd]

/-- There is no hump inside a word. -/
theorem splitHumps_append {w : Text} (hw : ∀ c ∈ w, isWordPart c = true) (hne : w ≠ [])
    (before : Option Char) (t : Text) :
    ∃ d, isWordPart d = true ∧ splitHumps before (w ++ t) = w ++ splitHumps (some d) t := by
  refine exists_pass_append (fun before c t hc => ?_) hw hne before t
  exact splitHumps_cons (lower_of_isWordPart hc).1 before t

/-- Every hump of a key in camel case gets an underscore. -/
theorem splitHumps_humps {ws : List Text} (hws : ∀ w ∈ ws, isWord w = true) {before : Char}
    (hbefore : isWordPart before = true) :
    splitHumps (some before) (ws.flatMap capitalized) =
      ws.flatMap fun w => '_' :: capitalized w := by
  induction ws generalizing before with
  | nil => rfl
  | cons w ws ih =>
    obtain ⟨hw, hlater⟩ := List.forall_mem_cons.mp hws
    obtain ⟨c, r, rfl, hc, hne, hr⟩ := exists_of_isWord hw
    obtain ⟨d, hd, hrest⟩ := splitHumps_append hr hne (some c.toUpper) (ws.flatMap capitalized)
    have hhump : (isSmall before || ('0' ≤ before && before ≤ '9')) = true := hbefore
    rw [List.flatMap_cons, List.flatMap_cons, capitalized, List.cons_append, splitHumps]
    simp [hhump, (upper_of_isSmall hc).1, hrest, ih hlater hd]

/-! ## The styles -/

/-- A capitalized word is made of characters of keys. -/
theorem isKeyChar_of_capitalized {w : Text} (hw : isWord w = true) :
    ∀ c ∈ capitalized w, isKeyChar c = true := by
  obtain ⟨c, r, rfl, hc, -, hr⟩ := exists_of_isWord hw
  refine List.forall_mem_cons.mpr ⟨?_, fun d hd => isKeyChar_of_isWordPart (hr d hd)⟩
  simp [isKeyChar, (upper_of_isSmall hc).1]

/-- A text without capitals is its own lower case. -/
theorem map_toLower_of_forall {t : Text} (h : ∀ c ∈ t, c.toLower = c) : t.map Char.toLower = t := by
  rw [List.map_congr_left h, List.map_id']

/-- In lower case a capitalized word is the word. -/
theorem map_toLower_capitalized {w : Text} (hw : isWord w = true) :
    (capitalized w).map Char.toLower = w := by
  obtain ⟨c, r, rfl, hc, -, hr⟩ := exists_of_isWord hw
  rw [capitalized, List.map_cons, (upper_of_isSmall hc).2,
    map_toLower_of_forall fun d hd => (lower_of_isWordPart (hr d hd)).2]

/-- Snake style finds the words of a key that begins with a word, with or without a capital, and
goes on in humps. -/
theorem snake_first_humps {c : Char} {r : Text} (hc : isKeyChar c = true) (hne : r ≠ [])
    (hr : ∀ d ∈ r, isWordPart d = true) {ws : List Text} (hws : ∀ w ∈ ws, isWord w = true) :
    snake (c :: (r ++ ws.flatMap capitalized)) = c.toLower :: (r ++ ws.flatMap ('_' :: ·)) := by
  have hparts : ∀ d ∈ c :: r, isKeyChar d = true :=
    List.forall_mem_cons.mpr ⟨hc, fun d hd => isKeyChar_of_isWordPart (hr d hd)⟩
  have hhumps : ∀ d ∈ ws.flatMap capitalized, isKeyChar d = true := by
    intro d hd
    obtain ⟨v, hv, hd⟩ := List.mem_flatMap.mp hd
    exact isKeyChar_of_capitalized (hws v hv) d hd
  have hsplit : ∀ d ∈ ws.flatMap fun v => '_' :: capitalized v, isKeyChar d = true := by
    intro d hd
    obtain ⟨v, hv, hd⟩ := List.mem_flatMap.mp hd
    rcases List.mem_cons.mp hd with rfl | hd
    · rfl
    · exact isKeyChar_of_capitalized (hws v hv) d hd
  -- nothing precedes the first character, so neither pass puts an underscore before it
  have hacronyms : splitAcronyms none (c :: (r ++ ws.flatMap capitalized)) =
      c :: (r ++ ws.flatMap capitalized) := by
    obtain ⟨d, hd, hrest⟩ := splitAcronyms_append (fun d hd => (lower_of_isWordPart (hr d hd)).1)
      hne
      (some c) (ws.flatMap capitalized)
    rw [splitAcronyms, hrest, splitAcronyms_humps hws hd]
    rfl
  have hsteps : splitHumps none (c :: (r ++ ws.flatMap capitalized)) =
      c :: (r ++ ws.flatMap fun v => '_' :: capitalized v) := by
    obtain ⟨d, hd, hrest⟩ := splitHumps_append hr hne (some c) (ws.flatMap capitalized)
    rw [splitHumps, hrest, splitHumps_humps hws hd]
    rfl
  rw [← List.cons_append, snake_eq (List.forall_mem_append.mpr ⟨hparts, hhumps⟩), List.cons_append,
    hacronyms, hsteps, ← List.cons_append,
    lower_eq_map (List.forall_mem_append.mpr ⟨hparts, hsplit⟩), List.map_append, List.map_cons,
    map_toLower_of_forall fun d hd => (lower_of_isWordPart (hr d hd)).2,
    List.map_flatMap, List.cons_append]
  congr 2
  refine List.flatMap_congr fun v hv => ?_
  rw [List.map_cons, map_toLower_capitalized (hws v hv)]
  rfl

/-- **Snake style finds the words of camel case.** -/
theorem snake_camel {words : List Text} (h : ∀ w ∈ words, isWord w = true) :
    snake (camel words) = underscored words := by
  cases words with
  | nil => rfl
  | cons w ws =>
    obtain ⟨hw, hws⟩ := List.forall_mem_cons.mp h
    obtain ⟨c, r, rfl, hc, hne, hr⟩ := exists_of_isWord hw
    have hpart : isWordPart c = true := by simp [isWordPart, hc]
    rw [camel, List.cons_append, snake_first_humps (isKeyChar_of_isWordPart hpart) hne hr hws,
      (lower_of_isWordPart hpart).2, underscored_cons]
    rfl

/-- A text without capitals has no acronyms. -/
theorem splitAcronyms_of_forall {t : Text} (h : ∀ c ∈ t, isCapital c = false)
    (before : Option Char) :
    splitAcronyms before t = t := by
  induction t generalizing before with
  | nil => rfl
  | cons c t ih =>
    obtain ⟨hc, ht⟩ := List.forall_mem_cons.mp h
    rw [splitAcronyms_cons hc, ih ht]

/-- A text without capitals has no humps. -/
theorem splitHumps_of_forall {t : Text} (h : ∀ c ∈ t, isCapital c = false) (before : Option Char) :
    splitHumps before t = t := by
  induction t generalizing before with
  | nil => rfl
  | cons c t ih =>
    obtain ⟨hc, ht⟩ := List.forall_mem_cons.mp h
    rw [splitHumps_cons hc, ih ht]

/-- The characters of words that are joined by underscores. -/
theorem isKeyChar_of_underscored {words : List Text} (h : ∀ w ∈ words, isWord w = true) :
    ∀ c ∈ underscored words, isKeyChar c = true ∧ isCapital c = false ∧ c.toLower = c := by
  have hpart {w : Text} (hw : isWord w = true) (c : Char) (hc : c ∈ w) :
      isKeyChar c = true ∧ isCapital c = false ∧ c.toLower = c :=
    have hc := isWordPart_of_isWord hw c hc
    ⟨isKeyChar_of_isWordPart hc, lower_of_isWordPart hc⟩
  cases words with
  | nil => exact fun c hc => absurd hc List.not_mem_nil
  | cons w ws =>
    obtain ⟨hw, hws⟩ := List.forall_mem_cons.mp h
    intro c hc
    rw [underscored_cons, List.mem_append] at hc
    rcases hc with hc | hc
    · exact hpart hw c hc
    · obtain ⟨v, hv, hc⟩ := List.mem_flatMap.mp hc
      rcases List.mem_cons.mp hc with rfl | hc
      · decide
      · exact hpart (hws v hv) c hc

/-- The last passes of snake style have nothing to do where words are joined by underscores. -/
theorem lower_split_underscored {words : List Text} (h : ∀ w ∈ words, isWord w = true) :
    Text.lower (splitHumps none (splitAcronyms none (underscored words))) = underscored words := by
  have hchars := isKeyChar_of_underscored h
  have hcapital : ∀ c ∈ underscored words, isCapital c = false := fun c hc => (hchars c hc).2.1
  rw [splitAcronyms_of_forall hcapital, splitHumps_of_forall hcapital,
    lower_eq_map fun c hc => (hchars c hc).1, map_toLower_of_forall fun c hc => (hchars c hc).2.2]

/-- **Snake style leaves words that are joined by underscores.** -/
theorem snake_underscored {words : List Text} (h : ∀ w ∈ words, isWord w = true) :
    snake (underscored words) = underscored words := by
  rw [snake_eq fun c hc => (isKeyChar_of_underscored h c hc).1, lower_split_underscored h]

end ShapedReply.KeyStyle
