import ShapedReply.Proofs.Mending.Stages

/-!
# Bare keys under mending

The stage that quotes bare keys remembers whether a key may start: right behind an opening brace or
a comma, with blanks in between. What it has to get right is the other things that start there, the
names of truth values and null in an array. They are left alone because no colon follows them
(`quoteKeysIn_word`), and a name of a key is quoted because one does (`quoteKeysIn_name`).

* `quoteKeysIn_text`: **the stage puts quotes around the bare keys of a tree and changes nothing
  else**, whether or not a key may start where the tree starts. What it asks of the two pens is
  `CarriesKeys`.
-/

namespace ShapedReply

open Text Reader Spelling Mend

/-! ## Along the text -/

/-- Blanks are passed over. -/
theorem quoteKeysIn_append {k : Keys} (hk : k ≠ .inside) {g : Text}
    (hg : ∀ c ∈ g, isBlank c = true) (r : Text) :
    quoteKeysIn k (g ++ r) = g ++ quoteKeysIn k r := by
  induction g with
  | nil => rfl
  | cons c g ih =>
    rw [List.forall_mem_cons] at hg
    obtain ⟨hcode, -, hcomma⟩ := code_of_isBlank hg.1
    have hbrace : c ≠ '{' := by
      rintro rfl
      exact absurd hg.1 (by decide)
    cases k with
    | inside => exact absurd rfl hk
    | elsewhere =>
      rw [List.cons_append, quoteKeysIn_elsewhere_cons hcode, if_neg (by simp [hbrace, hcomma]),
        ih hg.2, List.cons_append]
    | expected =>
      rw [List.cons_append, quoteKeysIn_expected_cons hcode, isNameStart_of_isBlank hg.1,
        Bool.false_and, if_neg (by decide), if_pos (by simp [hg.1]), ih hg.2, List.cons_append]

/-- A character that starts no key decides whether a key may start behind it. -/
theorem quoteKeysIn_cons {k : Keys} (hk : k ≠ .inside) {c : Char} {r : Text} (hc : isCode c = true)
    (hblank : isBlank c = false) (hkey : (Text.isNameStart c && endsKey r) = false) :
    quoteKeysIn k (c :: r) =
      c :: quoteKeysIn (if c = '{' || c = ',' then .expected else .elsewhere) r := by
  cases k with
  | inside => exact absurd rfl hk
  | elsewhere => exact quoteKeysIn_elsewhere_cons hc r
  | expected =>
    rw [quoteKeysIn_expected_cons hc, if_neg (by simp [hkey]), hblank, Bool.or_false]

/-- Where no key can start, code without braces and commas is left as it is. -/
theorem quoteKeysIn_elsewhere_append {w : Text} (hw : ∀ c ∈ w, isCode c = true ∧ c ≠ '{' ∧ c ≠ ',')
    (r : Text) : quoteKeysIn .elsewhere (w ++ r) = w ++ quoteKeysIn .elsewhere r := by
  induction w with
  | nil => rfl
  | cons c w ih =>
    rw [List.forall_mem_cons] at hw
    rw [List.cons_append, quoteKeysIn_elsewhere_cons hw.1.1, if_neg (by simp [hw.1.2]), ih hw.2,
      List.cons_append]

/-- Looking ahead for a colon, only what comes first behind the key and the blanks counts. -/
theorem endsKey_eq (t : Text) :
    endsKey t = (trimStart (t.dropWhile Text.isNamePart)).head?.any (· == ':') := by
  unfold endsKey
  cases trimStart (t.dropWhile Text.isNamePart) <;> rfl

/-- Blanks at the end do not change whether a key ends. -/
theorem endsKey_append_blanks (t : Text) {g : Text} (hg : ∀ c ∈ g, isBlank c = true) :
    endsKey (t ++ g) = endsKey t := by
  have hparts : g.dropWhile Text.isNamePart = g := by
    rcases g with _ | ⟨c, g⟩
    · rfl
    · exact List.dropWhile_cons_of_neg (by simp [isNamePart_of_isBlank (hg c List.mem_cons_self)])
  have hdrop : (t ++ g).dropWhile Text.isNamePart = t.dropWhile Text.isNamePart ++ g := by
    rw [List.dropWhile_append, hparts]
    split
    · next hempty => rw [List.isEmpty_iff.mp hempty, List.nil_append]
    · rfl
  rw [endsKey_eq, endsKey_eq, hdrop, head?_trimStart_append _ hg]

/-- Behind blanks, a key ends exactly at a colon. -/
theorem endsKey_append {g : Text} (hg : ∀ c ∈ g, isBlank c = true) {c : Char}
    (hpart : Text.isNamePart c = false) (hblank : isBlank c = false) (r : Text) :
    endsKey (g ++ c :: r) = (c == ':') := by
  have hdrop : (g ++ c :: r).dropWhile Text.isNamePart = g ++ c :: r := by
    rcases g with _ | ⟨d, g⟩
    · exact List.dropWhile_cons_of_neg (by simp [hpart])
    · exact List.dropWhile_cons_of_neg (by simp [isNamePart_of_isBlank (hg d List.mem_cons_self)])
  unfold endsKey
  rw [hdrop, trimStart_append hg, trimStart_cons hblank]

/-- Parts of a key before a text do not change whether a key ends there. -/
theorem endsKey_append_parts {w : Text} (hw : ∀ c ∈ w, Text.isNamePart c = true) (r : Text) :
    endsKey (w ++ r) = endsKey r := by
  unfold endsKey
  rw [List.dropWhile_append_of_pos hw]

/-! ## Words and keys -/

/-- A word goes on with code that neither opens a map, nor ends an entry, nor is blank. -/
theorem wordParts_keys :
    ∀ c ∈ wordParts, isCode c = true ∧ c ≠ '{' ∧ c ≠ ',' ∧ isBlank c = false := by
  decide

/-- A word that starts like a key is made of parts of keys. -/
theorem isNamePart_of_mem_word {w : Word} {c : Char} {t : Text} (hw : w.text = c :: t)
    (hc : Text.isNameStart c = true) : ∀ d ∈ t, Text.isNamePart d = true := by
  cases w with
  | null =>
    cases hw
    decide
  | bool b =>
    cases b <;> cases hw <;> decide
  | number t v reads =>
    obtain ⟨w, ht, -, hstart, -⟩ := number_eq_ok reads
    rw [List.append_nil] at ht
    rw [Word.text, ht] at hw
    rcases hstart with ⟨d, w', rfl, hd⟩ | ⟨d, w', rfl, -⟩
    · cases hw
      have hnot : ∀ x ∈ digits, Text.isNameStart x = false := by decide
      rw [hnot c (mem_digits hd)] at hc
      cases hc
    · cases hw
      exact absurd hc (by decide)

/-- A word is left as it is where no colon follows. -/
theorem quoteKeysIn_word {k : Keys} (hk : k ≠ .inside) (w : Word) {r : Text}
    (hr : endsKey r = false) :
    quoteKeysIn k (w.text ++ r) = w.text ++ quoteKeysIn .elsewhere r := by
  obtain ⟨c, t, hw, -⟩ := exists_word_eq_cons w
  have hparts := mem_wordParts w
  rw [hw, List.forall_mem_cons] at hparts
  obtain ⟨hcode, hbrace, hcomma, hblank⟩ := wordParts_keys c hparts.1
  have hkey : (Text.isNameStart c && endsKey (t ++ r)) = false := by
    rcases hstart : Text.isNameStart c with _ | _
    · rfl
    · rw [endsKey_append_parts (isNamePart_of_mem_word hw hstart), hr]
      rfl
  rw [hw, List.cons_append, quoteKeysIn_cons hk hcode hblank hkey,
    if_neg (by simp [hbrace, hcomma]), quoteKeysIn_elsewhere_append fun d hd => ?_]
  · rfl
  · obtain ⟨h₁, h₂, h₃, -⟩ := wordParts_keys d (hparts.2 d hd)
    exact ⟨h₁, h₂, h₃⟩

/-- Inside a name the stage goes on to the end of the name and closes it there. -/
theorem quoteKeysIn_inside {w : Text} (hw : ∀ c ∈ w, Text.isNamePart c = true) {c : Char}
    (hc : isCode c = true) (hpart : Text.isNamePart c = false) (r : Text) :
    quoteKeysIn .inside (w ++ c :: r) = w ++ '"' :: c :: quoteKeysIn .elsewhere r := by
  induction w with
  | nil =>
    rw [List.nil_append, quoteKeysIn_inside_cons hc, if_neg (by simp [hpart]), List.nil_append]
  | cons d w ih =>
    rw [List.forall_mem_cons] at hw
    rw [List.cons_append, quoteKeysIn_inside_cons (isCode_of_isNamePart hw.1), if_pos hw.1, ih hw.2,
      List.cons_append]

/-- The name of a key gets quotes, for a colon follows. -/
theorem quoteKeysIn_name {name g : Text} (hname : isName name = true)
    (hg : ∀ c ∈ g, isBlank c = true) (r : Text) :
    quoteKeysIn .expected (name ++ (g ++ ':' :: r)) =
      '"' :: (name ++ '"' :: (g ++ ':' :: quoteKeysIn .elsewhere r)) := by
  obtain ⟨c, t, rfl, hstart, hparts⟩ := exists_of_isName hname
  rw [List.forall_mem_cons] at hparts
  have hcolon : quoteKeysIn .elsewhere (':' :: r) = ':' :: quoteKeysIn .elsewhere r :=
    quoteKeysIn_elsewhere_cons rfl r
  have hends : endsKey (t ++ (g ++ ':' :: r)) = true := by
    rw [endsKey_append_parts hparts.2, endsKey_append hg rfl rfl]
    rfl
  rw [List.cons_append, quoteKeysIn_expected_cons (isCode_of_isNamePart hparts.1),
    if_pos (by simp [hstart, hends])]
  -- the closing quote is put before the first character behind the name
  rcases g with _ | ⟨d, g⟩
  · rw [List.nil_append, quoteKeysIn_inside hparts.2 rfl rfl]
    rfl
  · rw [List.forall_mem_cons] at hg
    rw [List.cons_append, quoteKeysIn_inside hparts.2 (isCode_of_isBlank hg.1)
      (isNamePart_of_isBlank hg.1), quoteKeysIn_append (by simp) hg.2, hcolon]
    rfl

/-- A literal is passed over, whether or not a key may start there. -/
theorem quoteKeysIn_quoted {st : Keys} (hst : st ≠ .inside) {q : Char} (hq : isCode q = false)
    {body : Text} (hbody : Sealed q body) (r : Text) :
    quoteKeysIn st (q :: (body ++ q :: r)) = q :: (body ++ q :: quoteKeysIn .elsewhere r) := by
  refine quoteKeysIn_literal ?_ hq hbody r
  cases st with
  | inside => exact absurd rfl hst
  | elsewhere => rfl
  | expected => rfl

/-! ## Trees -/

/-- `CarriesKeys pen pen'`: the stage turns the keys of one pen into those of another, and the two
pens write the rest alike, with blanks between tokens. -/
structure CarriesKeys (pen pen' : Pen) : Prop where
  gap : ∀ g, pen'.gap g = pen.gap g
  blank : ∀ g, ∀ c ∈ pen.gap g, isValueBlank c = true
  trailing : ∀ ps, pen'.trailing ps = pen.trailing ps
  trailingBlank : ∀ ps, ∀ c ∈ pen.trailing ps, isValueBlank c = true
  key : ∀ key {g : Text}, (∀ c ∈ g, isValueBlank c = true) → ∀ r,
    quoteKeysIn .expected (pen.key key ++ (g ++ ':' :: r)) =
      pen'.key key ++ (g ++ ':' :: quoteKeysIn .elsewhere r)
  string : ∀ s {st : Keys}, st ≠ .inside → ∀ r,
    quoteKeysIn st (pen.string s ++ r) = pen'.string s ++ quoteKeysIn .elsewhere r

section carriesKeys

variable {pen pen' : Pen}

/-- Outside of keys a gap is passed as one step passes it. -/
theorem CarriesKeys.passGap (h : CarriesKeys pen pen') {st : Keys} (hst : st ≠ .inside) (g : Gap)
    (r : Text) : quoteKeysIn st (pen.gap g ++ r) = pen'.gap g ++ quoteKeysIn st r := by
  rw [h.gap, quoteKeysIn_append hst (forall_isBlank (h.blank g))]

/-- Behind an entry a trailing comma is passed as one step passes it. -/
theorem CarriesKeys.passTrailing (h : CarriesKeys pen pen') (ps : Option (List Piece)) (r : Text) :
    quoteKeysIn .elsewhere (pen.trailing ps ++ r) =
      pen'.trailing ps ++ quoteKeysIn .elsewhere r := by
  rw [h.trailing, quoteKeysIn_append (by simp) (forall_isBlank (h.trailingBlank ps))]

/-- The head of a member gets its quotes; the head of an item leaves the stage where it is. -/
theorem CarriesKeys.head (h : CarriesKeys pen pen') {k : Container} (head : Head k) {st : Keys}
    (hst : st ≠ .inside) (hmap : k = .map → st = .expected) (r : Text) :
    ∃ st', st' ≠ .inside ∧
      quoteKeysIn st (head.text pen ++ r) = head.text pen' ++ quoteKeysIn st' r := by
  cases head with
  | item before => exact ⟨st, hst, h.passGap hst before r⟩
  | member before key beforeColon afterColon =>
    refine ⟨.elsewhere, by simp, ?_⟩
    rw [hmap rfl]
    simp only [Head.text, List.append_assoc, List.cons_append]
    rw [h.passGap (by simp), h.key key (h.blank beforeColon), h.passGap (by simp),
      h.gap beforeColon]

/-- Behind an opening brace a key may start. -/
theorem quoteKeysIn_opener (k : Container) {st : Keys} (hst : st ≠ .inside) :
    ∃ st', st' ≠ .inside ∧ (k = .map → st' = .expected) ∧
      ∀ r, quoteKeysIn st (k.opener :: r) = k.opener :: quoteKeysIn st' r := by
  cases k with
  | array => exact ⟨.elsewhere, by simp, by simp, fun r => quoteKeysIn_cons hst rfl rfl rfl⟩
  | map => exact ⟨.expected, by simp, by simp, fun r => quoteKeysIn_cons hst rfl rfl rfl⟩

/-- Behind a closing bracket no key starts. -/
theorem quoteKeysIn_closer (k : Container) {st : Keys} (hst : st ≠ .inside) (r : Text) :
    quoteKeysIn st (k.closer :: r) = k.closer :: quoteKeysIn .elsewhere r := by
  cases k <;> exact quoteKeysIn_cons hst rfl rfl rfl

/-- Behind a comma a key may start. -/
theorem quoteKeysIn_comma (r : Text) :
    quoteKeysIn .elsewhere (',' :: r) = ',' :: quoteKeysIn .expected r :=
  quoteKeysIn_elsewhere_cons rfl r

/-- Between an entry and its closing bracket or comma no key ends. -/
theorem endsKey_behind {g : Text} (hg : ∀ c ∈ g, isBlank c = true) {c : Char}
    (hc : c ∈ [',', ']', '}']) (r : Text) : endsKey (g ++ c :: r) = false := by
  have hfacts : ∀ c ∈ [',', ']', '}'], Text.isNamePart c = false ∧ isBlank c = false ∧
      (c == ':') = false := by
    decide
  obtain ⟨hpart, hblank, hcolon⟩ := hfacts c hc
  rw [endsKey_append hg hpart hblank, hcolon]

mutual

/-- **The stage puts quotes around the bare keys of a tree and changes nothing else.** -/
theorem quoteKeysIn_text (h : CarriesKeys pen pen') :
    (T : Tree) → ∀ {st : Keys} {r : Text}, st ≠ .inside → endsKey r = false →
      quoteKeysIn st (T.text pen ++ r) = T.text pen' ++ quoteKeysIn .elsewhere r
  | .word w, st, r, hst, hr => by
    rw [Tree.text, Tree.text]
    exact quoteKeysIn_word hst w hr
  | .string s, st, r, hst, hr => by
    rw [Tree.text, Tree.text]
    exact h.string s hst r
  | .empty k inside, st, r, hst, hr => by
    obtain ⟨st', hst', -, hopener⟩ := quoteKeysIn_opener k hst
    rw [Tree.text, Tree.text, List.cons_append, hopener, List.append_assoc, List.singleton_append,
      h.passGap hst', quoteKeysIn_closer k hst']
    simp
  | .filled k es, st, r, hst, hr => by
    obtain ⟨st', hst', hmap, hopener⟩ := quoteKeysIn_opener k hst
    rw [Tree.text, Tree.text, List.cons_append, hopener, quoteKeysIn_entries h es r hst' hmap]
    rfl

/-- The same of entries. In a map the stage stands where a key may start. -/
theorem quoteKeysIn_entries (h : CarriesKeys pen pen') {k : Container} :
    (es : Entries k) → ∀ {st : Keys} (r : Text), st ≠ .inside → (k = .map → st = .expected) →
      quoteKeysIn st (es.text pen ++ r) = es.text pen' ++ quoteKeysIn .elsewhere r
  | .last head item after trailing, st, r, hst, hmap => by
    simp only [Entries.text, List.append_assoc, List.singleton_append]
    obtain ⟨st', hst', hhead⟩ := h.head head hst hmap
      (item.text pen ++ (pen.gap after ++ (pen.trailing trailing ++ k.closer :: r)))
    have hends : endsKey (pen.gap after ++ (pen.trailing trailing ++ k.closer :: r)) = false := by
      rw [← List.append_assoc]
      refine endsKey_behind (forall_isBlank ?_) (by cases k <;> decide) r
      exact List.forall_mem_append.mpr ⟨h.blank after, h.trailingBlank trailing⟩
    rw [hhead, quoteKeysIn_text h item hst' hends, h.passGap (by simp), h.passTrailing,
      quoteKeysIn_closer k (by simp)]
  | .more head item after rest, st, r, hst, hmap => by
    simp only [Entries.text, List.append_assoc, List.cons_append]
    obtain ⟨st', hst', hhead⟩ := h.head head hst hmap
      (item.text pen ++ (pen.gap after ++ ',' :: (rest.text pen ++ r)))
    have hends : endsKey (pen.gap after ++ ',' :: (rest.text pen ++ r)) = false :=
      endsKey_behind (forall_isBlank (h.blank after)) (by decide) _
    rw [hhead, quoteKeysIn_text h item hst' hends, h.passGap (by simp), quoteKeysIn_comma,
      quoteKeysIn_entries h rest r (by simp) (by simp)]

end

end carriesKeys

/-- The third stage turns relaxed keys. -/
theorem carriesKeys_loose : CarriesKeys (.loose .withoutCommas) (.loose .withoutBareKeys) := by
  have hstring : ∀ s {st : Keys}, st ≠ .inside → ∀ r,
      quoteKeysIn st (Looseness.withoutCommas.string s ++ r) =
        Looseness.withoutBareKeys.string s ++ quoteKeysIn .elsewhere r := by
    intro s st hst r
    have hq := isCode_quote .withoutCommas s
    have htext : ∀ (l : Looseness) t, l.string s ++ t =
        l.quote s :: (s.looseBody (l.quote s) l.rawControls ++ l.quote s :: t) := by
      intro l t
      simp [Looseness.string]
    rw [htext, htext, quoteKeysIn_quoted hst hq (sealed_looseBody hq _ s)]
    rfl
  constructor
  case gap => exact fun _ => rfl
  case blank => exact fun g => isValueBlank_of_mem_pieces rfl g.loose
  case trailing => exact fun _ => rfl
  case trailingBlank =>
    intro ps c hc
    cases ps with
    | none => cases hc
    | some ps => exact isValueBlank_of_mem_pieces rfl ps c hc
  case key =>
    intro key g hg r
    rcases hbare : key.bare with _ | name
    · have hkey : ∀ l : Looseness, (Pen.loose l).key key = l.string key.quoted := by
        intro l
        simp only [Pen.loose, hbare]
      rw [hkey, hkey, hstring _ (by simp), quoteKeysIn_append (by simp) (forall_isBlank hg)]
      congr 2
      exact quoteKeysIn_elsewhere_cons rfl r
    · have hkey : (Pen.loose .withoutCommas).key key = name ∧
          (Pen.loose .withoutBareKeys).key key = '"' :: (name ++ ['"']) := by
        simp only [Pen.loose, hbare]
        exact ⟨rfl, rfl⟩
      rw [hkey.1, hkey.2, quoteKeysIn_name (key.isBare name hbare).1 (forall_isBlank hg)]
      simp
  case string => exact hstring

end ShapedReply
