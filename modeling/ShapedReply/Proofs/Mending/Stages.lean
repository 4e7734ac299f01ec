import ShapedReply.Proofs.Mending.Strings
import ShapedReply.Proofs.Text.Trim

/-!
# The stages of mending on a relaxed tree

Each stage takes one relaxation out of a tree and leaves the rest of it alone. Four of the five
stages look at one character of code or one literal at a time, up to the comma that may stand before
a closing bracket. For them one induction over trees is enough: `Carries F pen pen'` says that `F`
turns what `pen` writes of the parts of a tree into what `pen'` writes of them. The stage that
quotes bare keys has to know where it stands and gets an induction of its own (see
`Proofs/Mending/Keys`).

* `carries_text`: **a change of text that turns the parts of trees turns trees.**
* `carries_strip`, `carries_dropTrailingCommas`, `carries_requote`, `carries_escapeControls`: the
  four stages turn the parts of trees, each from one looseness to the next.
-/

namespace ShapedReply

open Text Reader Spelling Mend

/-! ## One relaxation after the other -/

/-- Relaxed text without comments. -/
def Spelling.Looseness.withoutComments : Looseness := ⟨false, true, true, true, true⟩

/-- Relaxed text without comments and without commas before closing brackets. -/
def Spelling.Looseness.withoutCommas : Looseness := ⟨false, false, true, true, true⟩

/-- The same with quotes around all keys. -/
def Spelling.Looseness.withoutBareKeys : Looseness := ⟨false, false, false, true, true⟩

/-- The same with double quotes only. -/
def Spelling.Looseness.withoutSingleQuotes : Looseness := ⟨false, false, false, false, true⟩

/-! ## Where a relaxed tree starts -/

/-- A relaxed string starts with a quote. -/
theorem isCode_quote (l : Looseness) (s : Quoted) : isCode (l.quote s) = false := by
  unfold Looseness.quote
  split <;> rfl

/-- A loose text starts as a value does. -/
theorem exists_loose_eq_cons (l : Looseness) (T : Tree) :
    ∃ c r, T.text (.loose l) = c :: r ∧ c ∈ valueStarts := by
  apply exists_text_eq_cons
  intro s
  refine ⟨_, _, rfl, ?_⟩
  rcases eq_quote (isCode_quote l s) with h | h
  · rw [h]
    decide
  · rw [h]
    decide

/-- Looking ahead for a closing bracket, only what comes first behind the blanks counts. -/
theorem closesNext_eq (t : Text) :
    closesNext t = (trimStart t).head?.any fun c => c == '}' || c == ']' := by
  unfold closesNext
  cases trimStart t <;> rfl

/-- Looking ahead for a closing bracket passes over blanks. -/
theorem closesNext_append {g : Text} (hg : ∀ c ∈ g, isBlank c = true) (r : Text) :
    closesNext (g ++ r) = closesNext r := by
  unfold closesNext
  rw [trimStart_append hg]

/-- Looking ahead for a closing bracket ends at any other character. -/
theorem closesNext_cons_of_ne {c : Char} (hblank : isBlank c = false) (h₁ : c ≠ ']') (h₂ : c ≠ '}')
    (r : Text) : closesNext (c :: r) = false := by
  unfold closesNext trimStart
  rw [List.dropWhile_cons_of_neg (by simp [hblank])]
  simp [h₁, h₂]

/-- A piece is blanks, or it starts with a slash. -/
theorem piece_cases (l : Looseness) (p : Piece) :
    (∀ c ∈ if l.comments then p.text else p.residue, isValueBlank c = true) ∨
      ∃ r, (if l.comments then p.text else p.residue) = '/' :: r := by
  cases p with
  | blank c hc =>
    left
    cases l.comments <;> simpa [Piece.text, Piece.residue] using hc
  | line body h =>
    cases l.comments
    · left
      simp [Piece.residue, isValueBlank]
    · exact .inr ⟨_, rfl⟩
  | block body h =>
    cases l.comments
    · left
      simp [Piece.residue]
    · exact .inr ⟨_, rfl⟩

/-- Between tokens no closing bracket comes next, unless one comes next behind. -/
theorem closesNext_pieces (l : Looseness) (ps : List Piece) {r : Text} (h : closesNext r = false) :
    closesNext (l.pieces ps ++ r) = false := by
  induction ps with
  | nil => exact h
  | cons p ps ih =>
    rw [Looseness.pieces, List.flatMap_cons, ← Looseness.pieces, List.append_assoc]
    rcases piece_cases l p with hblank | ⟨t, ht⟩
    · rw [closesNext_append (forall_isBlank hblank)]
      exact ih
    · rw [ht]
      rfl

/-- A value starts with no blank and no closing bracket. -/
theorem valueStarts_ne : ∀ c ∈ valueStarts, isBlank c = false ∧ c ≠ ']' ∧ c ≠ '}' := by decide

/-- What a relaxed key starts with. -/
theorem exists_key_eq_cons (l : Looseness) (k : Key) :
    ∃ c r, (Pen.loose l).key k = c :: r ∧ isBlank c = false ∧ c ≠ ']' ∧ c ≠ '}' := by
  simp only [Pen.loose]
  split
  · refine ⟨_, _, rfl, ?_⟩
    rcases eq_quote (isCode_quote l k.quoted) with h | h
    · rw [h]
      decide
    · rw [h]
      decide
  · next name hname =>
    split
    · obtain ⟨c, r, rfl, -, hparts⟩ := exists_of_isName (k.isBare name hname).1
      refine ⟨c, r, rfl, ?_⟩
      have hc := hparts c List.mem_cons_self
      refine ⟨(plain_of_isNamePart hc).2.2.2.2.2.2, ?_, ?_⟩
      · rintro rfl
        exact absurd hc (by decide)
      · rintro rfl
        exact absurd hc (by decide)
    · exact ⟨_, _, rfl, by decide⟩

/-- What a pen needs so that no closing bracket comes next where an entry starts. -/
structure OpensEntries (pen : Pen) : Prop where
  gap : ∀ g r, closesNext r = false → closesNext (pen.gap g ++ r) = false
  key : ∀ k, ∃ c r, pen.key k = c :: r ∧ isBlank c = false ∧ c ≠ ']' ∧ c ≠ '}'
  string : ∀ s, ∃ c r, pen.string s = c :: r ∧ c ∈ valueStarts

/-- Loose entries start with no blank and no closing bracket. -/
theorem opensEntries_loose (l : Looseness) : OpensEntries (.loose l) where
  gap g _ h := closesNext_pieces l g.loose h
  key k := exists_key_eq_cons l k
  string s := exists_loose_eq_cons l (.string s)

/-- No closing bracket comes next where a value starts. -/
theorem OpensEntries.tree {pen : Pen} (h : OpensEntries pen) (T : Tree) (r : Text) :
    closesNext (T.text pen ++ r) = false := by
  obtain ⟨c, s, hT, hc⟩ := exists_text_eq_cons h.string T
  obtain ⟨hblank, h₁, h₂⟩ := valueStarts_ne c hc
  rw [hT]
  exact closesNext_cons_of_ne hblank h₁ h₂ _

/-- No closing bracket comes next where the head of an entry starts. -/
theorem OpensEntries.head {pen : Pen} (h : OpensEntries pen) {k : Container} (head : Head k)
    {r : Text} (hr : closesNext r = false) : closesNext (head.text pen ++ r) = false := by
  cases head with
  | item before => exact h.gap before r hr
  | member before key beforeColon afterColon =>
    obtain ⟨c, s, hkey, hblank, h₁, h₂⟩ := h.key key
    simp only [Head.text, hkey, List.append_assoc]
    exact h.gap before _ (closesNext_cons_of_ne hblank h₁ h₂ _)

/-- No closing bracket comes next where an entry starts. -/
theorem OpensEntries.entries {pen : Pen} (h : OpensEntries pen) {k : Container} (es : Entries k)
    (r : Text) : closesNext (es.text pen ++ r) = false := by
  cases es with
  | last head item after trailing =>
    simp only [Entries.text, List.append_assoc]
    exact h.head head (h.tree item _)
  | more head item after rest =>
    simp only [Entries.text, List.append_assoc]
    exact h.head head (h.tree item _)

/-! ## Stages that go along the text -/

/-- `PassesCode F`: a change of text that leaves the characters of code as they are, slashes and
commas apart. -/
def PassesCode (F : Text → Text) : Prop :=
  ∀ c r, isCode c = true → c ≠ '/' → c ≠ ',' → F (c :: r) = c :: F r

/-- A row of characters of code is left as it is. -/
theorem PassesCode.append {F : Text → Text} (hF : PassesCode F) {w : Text}
    (hw : ∀ c ∈ w, isCode c = true ∧ c ≠ '/' ∧ c ≠ ',') (r : Text) : F (w ++ r) = w ++ F r := by
  induction w with
  | nil => rfl
  | cons c w ih =>
    rw [List.forall_mem_cons] at hw
    obtain ⟨⟨hcode, hslash, hcomma⟩, hw⟩ := hw
    rw [List.cons_append, hF c _ hcode hslash hcomma, ih hw, List.cons_append]

/-- `Carries F pen pen'`: a change of text that turns the parts of a tree from one pen to
another. -/
structure Carries (F : Text → Text) (pen pen' : Pen) : Prop where
  code : PassesCode F
  comma : ∀ r, closesNext r = false → F (',' :: r) = ',' :: F r
  start : ∀ {k : Container} (es : Entries k) r, closesNext (es.text pen ++ r) = false
  gap : ∀ g r, F (pen.gap g ++ r) = pen'.gap g ++ F r
  trailing : ∀ ps (k : Container) r,
    F (pen.trailing ps ++ k.closer :: r) = pen'.trailing ps ++ F (k.closer :: r)
  key : ∀ k r, F (pen.key k ++ r) = pen'.key k ++ F r
  string : ∀ s r, F (pen.string s ++ r) = pen'.string s ++ F r

/-- A word goes on with code that starts no comment and is no comma. -/
theorem wordParts_code : ∀ c ∈ wordParts, isCode c = true ∧ c ≠ '/' ∧ c ≠ ',' := by decide

section carries

variable {F : Text → Text} {pen pen' : Pen}

/-- A stage keeps an opening bracket. -/
theorem Carries.opener (h : Carries F pen pen') (k : Container) (r : Text) :
    F (k.opener :: r) = k.opener :: F r := by
  cases k <;> exact h.code _ _ rfl (by decide) (by decide)

/-- A stage keeps a closing bracket. -/
theorem Carries.closer (h : Carries F pen pen') (k : Container) (r : Text) :
    F (k.closer :: r) = k.closer :: F r := by
  cases k <;> exact h.code _ _ rfl (by decide) (by decide)

/-- A stage carries a key over to the other pen. -/
theorem Carries.head (h : Carries F pen pen') {k : Container} (head : Head k) (r : Text) :
    F (head.text pen ++ r) = head.text pen' ++ F r := by
  cases head with
  | item before => exact h.gap before r
  | member before key beforeColon afterColon =>
    simp only [Head.text, List.append_assoc, List.cons_append]
    rw [h.gap, h.key, h.gap, h.code ':' _ rfl (by decide) (by decide), h.gap]

mutual

/-- **A change that turns the parts of trees turns trees.** -/
theorem carries_text (h : Carries F pen pen') :
    (T : Tree) → ∀ r, F (T.text pen ++ r) = T.text pen' ++ F r
  | .word w, r => by
    rw [Tree.text, Tree.text]
    exact h.code.append (fun c hc => wordParts_code c (mem_wordParts w c hc)) r
  | .string s, r => by
    rw [Tree.text, Tree.text]
    exact h.string s r
  | .empty k inside, r => by
    rw [Tree.text, Tree.text, List.cons_append, h.opener, List.append_assoc, List.singleton_append,
      h.gap, h.closer]
    simp
  | .filled k es, r => by
    rw [Tree.text, Tree.text, List.cons_append, h.opener, carries_entries h es]
    rfl

/-- The same of entries. -/
theorem carries_entries (h : Carries F pen pen') {k : Container} :
    (es : Entries k) → ∀ r, F (es.text pen ++ r) = es.text pen' ++ F r
  | .last head item after trailing, r => by
    simp only [Entries.text, List.append_assoc, List.singleton_append]
    rw [h.head, carries_text h item, h.gap, h.trailing, h.closer]
  | .more head item after rest, r => by
    simp only [Entries.text, List.append_assoc, List.cons_append]
    rw [h.head, carries_text h item, h.gap, h.comma _ (h.start rest r), carries_entries h rest]

end

end carries

/-! ## Comments -/

/-- `PassesLiterals F`: a change of text that leaves literals as they are. -/
def PassesLiterals (F : Text → Text) : Prop :=
  ∀ q body r, isCode q = false → Sealed q body → F (q :: (body ++ q :: r)) = q :: (body ++ q :: F r)

/-- Where literals are left as they are, so are strings. -/
theorem PassesLiterals.string {F : Text → Text} (hF : PassesLiterals F) (l : Looseness) (s : Quoted)
    (r : Text) : F (l.string s ++ r) = l.string s ++ F r := by
  have htext : ∀ t, l.string s ++ t =
      l.quote s :: (s.looseBody (l.quote s) l.rawControls ++ l.quote s :: t) := by
    intro t
    simp [Looseness.string]
  rw [htext, htext, hF _ _ _ (isCode_quote l s) (sealed_looseBody (isCode_quote l s) _ s)]

/-- Parts of keys are code that no stage looks at, the one for bare keys apart. -/
theorem code_of_isNamePart {c : Char} (h : Text.isNamePart c = true) :
    isCode c = true ∧ c ≠ '/' ∧ c ≠ ',' :=
  ⟨isCode_of_isNamePart h, (plain_of_isNamePart h).2.2.2.1, (plain_of_isNamePart h).2.2.2.2.1⟩

/-- A name between double quotes is a literal. -/
theorem sealed_name {name : Text} (h : isName name = true) : Sealed '"' name := by
  obtain ⟨-, -, -, -, hparts⟩ := exists_of_isName h
  apply sealed_of_forall_ne
  intro c hc
  obtain ⟨-, hdouble, hslash, -⟩ := plain_of_isNamePart (hparts c hc)
  exact ⟨hslash, hdouble⟩

/-- Where code and literals are left as they are, so are keys. -/
theorem PassesLiterals.key {F : Text → Text} (hF : PassesLiterals F) (hcode : PassesCode F)
    (l : Looseness) (k : Key) (r : Text) :
    F ((Pen.loose l).key k ++ r) = (Pen.loose l).key k ++ F r := by
  simp only [Pen.loose]
  split
  · exact hF.string l k.quoted r
  · next name hname =>
    have hisName := (k.isBare name hname).1
    split
    · obtain ⟨-, -, -, -, hparts⟩ := exists_of_isName hisName
      exact hcode.append (fun c hc => code_of_isNamePart (hparts c hc)) r
    · have := hF '"' name r rfl (sealed_name hisName)
      simpa using this

/-- The removal of comments passes code. -/
theorem passesCode_strip : PassesCode (stripFrom .code) :=
  fun _ r hc hslash _ => stripFrom_cons hc hslash r

/-- A comment goes, and what is left of it is its residue. -/
theorem strip_piece (p : Piece) (r : Text) :
    stripFrom .code (p.text ++ r) = p.residue ++ stripFrom .code r := by
  cases p with
  | blank c hc =>
    refine passesCode_strip c r (isCode_of_isBlank (isBlank_of_isValueBlank hc)) ?_ ?_
    · rintro rfl
      exact absurd hc (by decide)
    · rintro rfl
      exact absurd hc (by decide)
  | line body hbody =>
    have htext : Piece.text (.line body hbody) ++ r = '/' :: '/' :: (body ++ '\n' :: r) := by
      simp [Piece.text]
    rw [htext, stripFrom, stripFrom_line hbody]
    rfl
  | block body hbody =>
    have htext : Piece.text (.block body hbody) ++ r = '/' :: '*' :: (body ++ '*' :: '/' :: r) := by
      simp [Piece.text]
    rw [htext, stripFrom, stripFrom_block hbody]
    rfl

/-- The comments between two tokens go. -/
theorem strip_pieces (l l' : Looseness) (hl : l.comments = true) (hl' : l'.comments = false)
    (ps : List Piece) (r : Text) :
    stripFrom .code (l.pieces ps ++ r) = l'.pieces ps ++ stripFrom .code r := by
  unfold Looseness.pieces
  simp only [hl, hl', if_true, Bool.false_eq_true, if_false]
  induction ps with
  | nil => rfl
  | cons p ps ih =>
    rw [List.flatMap_cons, List.flatMap_cons, List.append_assoc, List.append_assoc, strip_piece, ih]

/-- The first stage takes the comments out of the parts of a tree. -/
theorem carries_strip : Carries (stripFrom .code) (.loose .full) (.loose .withoutComments) := by
  have hliterals : PassesLiterals (stripFrom .code) :=
    fun _ _ r hq hbody => stripFrom_literal hq hbody r
  have hcomma : ∀ r, stripFrom .code (',' :: r) = ',' :: stripFrom .code r :=
    fun r => stripFrom_cons rfl (by decide) r
  have hpieces := strip_pieces .full .withoutComments rfl rfl
  constructor
  case code => exact passesCode_strip
  case comma => exact fun r _ => hcomma r
  case start => exact fun es r => (opensEntries_loose .full).entries es r
  case gap => exact fun g r => hpieces g.loose r
  case trailing =>
    intro ps k r
    cases ps with
    | none => rfl
    | some ps =>
      show stripFrom .code (',' :: (Looseness.full.pieces ps ++ k.closer :: r)) = _
      rw [hcomma, hpieces]
      rfl
  case key => exact fun k r => hliterals.key passesCode_strip .full k r
  case string => exact fun s r => hliterals.string .full s r

/-! ## Commas -/

/-- Once the comments are gone, a stage leaves what stands between tokens as it is. -/
theorem PassesCode.pieces {F : Text → Text} (hF : PassesCode F) {l l' : Looseness}
    (hl : l.comments = false) (hl' : l'.comments = false) (ps : List Piece) (r : Text) :
    F (l.pieces ps ++ r) = l'.pieces ps ++ F r := by
  have hsame : l.pieces ps = l'.pieces ps := by
    simp only [Looseness.pieces, hl, hl']
  rw [← hsame]
  have hblank := forall_isBlank (isValueBlank_of_mem_pieces hl ps)
  exact hF.append (fun c hc => code_of_isBlank (hblank c hc)) r

/-- Once comments and commas are gone, the same holds before a closing bracket. -/
theorem PassesCode.trailing {F : Text → Text} (hF : PassesCode F) {l l' : Looseness}
    (hl : l.comments = false ∧ l.commas = false) (hl' : l'.comments = false ∧ l'.commas = false)
    (ps : Option (List Piece)) (r : Text) :
    F ((Pen.loose l).trailing ps ++ r) = (Pen.loose l').trailing ps ++ F r := by
  cases ps with
  | none => rfl
  | some ps =>
    simp only [Pen.loose, hl.2, hl'.2]
    exact hF.pieces hl.1 hl'.1 ps r

/-- The removal of commas passes code. -/
theorem passesCode_dropTrailingCommas : PassesCode dropTrailingCommas := by
  intro c r hc _ hcomma
  rw [dropTrailingCommas_cons hc, if_neg (by simp [hcomma])]

/-- The second stage takes the commas before closing brackets out of the parts of a tree. -/
theorem carries_dropTrailingCommas :
    Carries dropTrailingCommas (.loose .withoutComments) (.loose .withoutCommas) := by
  have hcode := passesCode_dropTrailingCommas
  have hliterals : PassesLiterals dropTrailingCommas :=
    fun _ _ r hq hbody => dropTrailingCommas_literal hq hbody r
  constructor
  case code => exact hcode
  case comma =>
    intro r hr
    rw [dropTrailingCommas_cons rfl, if_neg (by simp [hr])]
  case start => exact fun es r => (opensEntries_loose .withoutComments).entries es r
  case gap => exact fun g r => hcode.pieces rfl rfl g.loose r
  case trailing =>
    intro ps k r
    cases ps with
    | none => rfl
    | some ps =>
      have hcloses : closesNext (Looseness.withoutComments.pieces ps ++ k.closer :: r) = true := by
        rw [closesNext_append (forall_isBlank (isValueBlank_of_mem_pieces rfl ps))]
        cases k <;> rfl
      show dropTrailingCommas (',' :: (Looseness.withoutComments.pieces ps ++ k.closer :: r)) = _
      rw [dropTrailingCommas_cons rfl, if_pos (by simp [hcloses])]
      exact hcode.pieces rfl rfl ps _
  case key => exact fun k r => hliterals.key hcode .withoutComments k r
  case string => exact fun s r => hliterals.string .withoutComments s r

/-! ## Quotes and control characters -/

/-- What the last two stages need: they leave code as it is, commas included, and turn strings and
the names between quotes. -/
theorem carries_of_string {F : Text → Text} {l l' : Looseness}
    (hl : l.comments = false ∧ l.commas = false ∧ l.bareKeys = false)
    (hl' : l'.comments = false ∧ l'.commas = false ∧ l'.bareKeys = false)
    (hcode : ∀ c r, isCode c = true → F (c :: r) = c :: F r)
    (hstring : ∀ s r, F (l.string s ++ r) = l'.string s ++ F r)
    (hname : ∀ name r, isName name = true → F ('"' :: (name ++ '"' :: r)) =
      '"' :: (name ++ '"' :: F r)) :
    Carries F (.loose l) (.loose l') := by
  have hpass : PassesCode F := fun c r hc _ _ => hcode c r hc
  constructor
  case code => exact hpass
  case comma => exact fun r _ => hcode ',' r rfl
  case start => exact fun es r => (opensEntries_loose l).entries es r
  case gap => exact fun g r => hpass.pieces hl.1 hl'.1 g.loose r
  case trailing => exact fun ps k r => hpass.trailing ⟨hl.1, hl.2.1⟩ ⟨hl'.1, hl'.2.1⟩ ps _
  case key =>
    intro k r
    simp only [Pen.loose, hl.2.2, hl'.2.2]
    rcases hbare : k.bare with _ | name
    · exact hstring k.quoted r
    · have := hname name r (k.isBare name hbare).1
      simpa using this
  case string => exact hstring

/-- The fourth stage takes the single quotes out of the parts of a tree. -/
theorem carries_requote :
    Carries requote (.loose .withoutBareKeys) (.loose .withoutSingleQuotes) := by
  apply carries_of_string ⟨rfl, rfl, rfl⟩ ⟨rfl, rfl, rfl⟩ (fun c r hc => requote_cons hc r)
  · intro s r
    have hdouble : ∀ t, Looseness.withoutSingleQuotes.string s ++ t =
        '"' :: (s.looseBody '"' true ++ '"' :: t) := by
      intro t
      simp [Looseness.string, Looseness.quote, Looseness.withoutSingleQuotes]
    rw [hdouble]
    by_cases hsingle : s.single = true
    · have hstring : Looseness.withoutBareKeys.string s ++ r =
          '\'' :: (s.looseBody '\'' true ++ '\'' :: r) := by
        simp [Looseness.string, Looseness.quote, Looseness.withoutBareKeys, hsingle]
      rw [hstring, requote_literal rfl (sealed_looseBody rfl true s), if_pos rfl,
        requoteBody_looseBody]
    · have hstring : Looseness.withoutBareKeys.string s ++ r =
          '"' :: (s.looseBody '"' true ++ '"' :: r) := by
        simp [Looseness.string, Looseness.quote, Looseness.withoutBareKeys, hsingle]
      rw [hstring, requote_literal rfl (sealed_looseBody rfl true s), if_neg (by decide)]
  · intro name r hname
    rw [requote_literal rfl (sealed_name hname), if_neg (by decide)]

/-- The fifth stage takes the raw control characters out of the parts of a tree. -/
theorem carries_escapeControls :
    Carries escapeControls (.loose .withoutSingleQuotes) (.loose .clean) := by
  apply carries_of_string ⟨rfl, rfl, rfl⟩ ⟨rfl, rfl, rfl⟩ (fun c r hc => escapeControls_cons hc r)
  · intro s r
    have hraw : Looseness.withoutSingleQuotes.string s ++ r =
        '"' :: (s.looseBody '"' true ++ '"' :: r) := by
      simp [Looseness.string, Looseness.quote, Looseness.withoutSingleQuotes]
    rw [hraw, escapeControls_literal rfl (sealed_looseBody rfl true s),
      flatMap_escapeControl_looseBody]
    simp [Looseness.string, Looseness.quote, Looseness.clean]
  · intro name r hname
    obtain ⟨-, -, -, -, hparts⟩ := exists_of_isName hname
    rw [escapeControls_literal rfl (sealed_name hname),
      flatMap_escapeControl_of_le fun c hc => (plain_of_isNamePart (hparts c hc)).1]

end ShapedReply
