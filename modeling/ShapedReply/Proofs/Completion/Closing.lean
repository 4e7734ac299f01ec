import ShapedReply.Proofs.Completion.Tokens

/-!
# Closing a document where it breaks off

A document is closed at its end: an open literal gets its quote, blanks go, a comma goes, a colon
gets a null, and the brackets follow. What comes of that depends on how the text ends in its
innermost container, and there are three cases (`cut_outcome`):

* only blanks have come in of the next entry, and the container is closed without it;
* the next entry can be closed, whole, cut or with a null (`Closes`);
* the next entry has a fault (`Breaks`). Then the document is cut back to its last comma or opening
  bracket.

`exists_closed`: **in all three cases the outcome is the text of a tree whose value truncates the
document.**
-/

namespace ShapedReply

open Text Reader Spelling Mend Completion

variable {k : Container}

/-! ## The end of a text -/

/-- What a text becomes before its brackets are closed. -/
def Completion.finish (o : Outline) (t : Text) : Text :=
  settleEnd (trimEnd (closeString o t))

/-- An end that is neither a comma nor a colon is settled. -/
theorem settleEnd_concat (t : Text) {c : Char} (hcomma : c ≠ ',') (hcolon : c ≠ ':') :
    settleEnd (t ++ [c]) = t ++ [c] := by
  unfold settleEnd
  rw [List.getLast?_concat]
  split
  · next heq =>
    cases heq
    exact absurd rfl hcomma
  · next heq =>
    cases heq
    exact absurd rfl hcolon
  · rfl

/-- A comma at the end goes. -/
theorem settleEnd_comma (t : Text) : settleEnd (t ++ [',']) = t := by
  unfold settleEnd
  rw [List.getLast?_concat]
  exact List.dropLast_concat

/-- A colon at the end is followed by null. -/
theorem settleEnd_colon (t : Text) :
    settleEnd (t ++ [':']) = t ++ [':', ' ', 'n', 'u', 'l', 'l'] := by
  unfold settleEnd
  rw [List.getLast?_concat]
  simp

/-- Outside literals the blanks at the end go first. -/
theorem finish_code {o : Outline} (ho : o.place = .code) {c : Char} (hc : isBlank c = false)
    {g : Text} (hg : ∀ d ∈ g, isValueBlank d = true) (s : Text) :
    finish o (s ++ c :: g) = settleEnd (s ++ [c]) := by
  have hclose : closeString o (s ++ c :: g) = s ++ [c] ++ g := by
    unfold closeString
    rw [ho]
    simp
  rw [finish, hclose, trimEnd_append_of_blank (forall_isBlank hg),
    trimEnd_concat hc]

/-- A text that ends as a value does is left as it is. -/
theorem finish_value {o : Outline} (ho : o.place = .code) (T : Tree) {g : Text}
    (hg : ∀ d ∈ g, isValueBlank d = true) (s : Text) :
    finish o (s ++ (T.text .strict ++ g)) = s ++ T.text .strict := by
  have hends : ∀ c ∈ valueEnds, isBlank c = false ∧ c ≠ ',' ∧ c ≠ ':' := by decide
  obtain ⟨r, c, hT, hc⟩ := exists_strict_eq_concat T
  obtain ⟨hblank, hcomma, hcolon⟩ := hends c hc
  have htext : s ++ (T.text .strict ++ g) = (s ++ r) ++ c :: g := by
    rw [hT]
    simp
  rw [htext, finish_code ho hblank hg, settleEnd_concat _ hcomma hcolon, hT]
  simp

/-- A text whose open literal gets its quote ends with that quote. -/
theorem finish_quote {o : Outline} {t s : Text} (h : closeString o t = s ++ ['"']) :
    finish o t = s ++ ['"'] := by
  rw [finish, h, trimEnd_concat rfl, settleEnd_concat _ (by decide) (by decide)]

/-- A text that is closed to the text of a tree has that tree for its outcome. -/
theorem close?_eq_some {t : Text} {T : Tree}
    (h : finish (Outline.ofText t) t ++ (Outline.ofText t).closers = T.text .strict) :
    close? t = some (T.text .strict) := by
  have hcommas : dropTrailingCommas (T.text .strict) = T.text .strict := by
    have := carries_text carries_strict_commas T []
    rwa [List.append_nil, show dropTrailingCommas [] = [] from rfl, List.append_nil] at this
  have hclosed : dropTrailingCommas (settleEnd (trimEnd (closeString (Outline.ofText t) t)) ++
      (Outline.ofText t).closers) = T.text .strict := by
    rw [← hcommas, ← h]
    rfl
  unfold close?
  simp only
  rw [hclosed, isStrict, read_text_alone legible_strict T]
  rfl

/-- A text that is closed to no strict text has no outcome. -/
theorem close?_eq_none {t u : Text}
    (h : dropTrailingCommas (finish (Outline.ofText t) t ++ (Outline.ofText t).closers) = u)
    (hu : isStrict u = false) : close? t = none := by
  have hclosed : dropTrailingCommas (settleEnd (trimEnd (closeString (Outline.ofText t) t)) ++
      (Outline.ofText t).closers) = u := h
  unfold close?
  simp only
  rw [hclosed, hu]
  rfl

/-! ## The outline of what stands before the end -/

/-- An entry leaves the open brackets as they are. -/
theorem passes_entry (cs : List Char) (e : Entry k) : Outline.Passes cs cs e.text :=
  ((Outline.counts_head e.head).passes cs).append <| (Outline.passes_text cs e.item).append <|
    (Outline.counts_blanks e.after.blank).passes cs

/-- Entries leave the open brackets as they are. -/
theorem passes_lead (cs : List Char) (before : List (Entry k)) :
    Outline.Passes cs cs (leadText before) := by
  induction before with
  | nil => exact fun n cuts => ⟨cuts, rfl⟩
  | cons e before ih =>
    have htext : leadText (e :: before) = e.text ++ ([','] ++ leadText before) := by simp [leadText]
    rw [htext]
    exact (passes_entry cs e).append ((Outline.passes_comma cs).append ih)

variable {R T : Tree} {A : Text} {cs : List Char}

/-- On the way down to a place its brackets are opened. -/
theorem Spelling.Within.passes (h : Within R A cs T) : Outline.Passes [] cs A := by
  induction h with
  | root => exact fun n cuts => ⟨cuts, rfl⟩
  | @item A cs k before es _ ih =>
    exact ih.append <| (Outline.passes_opener k cs).append <|
      (passes_lead _ before).append ((Outline.counts_head es.first.head).passes _)

/-- The text up to the last cut of an open container: its opening bracket, or what stands before the
last comma. -/
def lastCut (A : Text) (k : Container) (before : List (Entry k)) : Text :=
  match before.reverse with
  | [] => A ++ [k.opener]
  | e :: rest => A ++ k.opener :: (leadText rest.reverse ++ e.text)

/-- Before the first entry the last cut is behind the opening bracket. -/
theorem lastCut_nil (A : Text) (k : Container) : lastCut A k [] = A ++ [k.opener] := rfl

/-- Behind an entry the last cut is at its end. -/
theorem lastCut_concat (A : Text) (before : List (Entry k)) (e : Entry k) :
    lastCut A k (before ++ [e]) = A ++ k.opener :: (leadText before ++ e.text) := by
  simp [lastCut]

/-- The outline of a container that is open behind some of its entries. -/
theorem Spelling.Within.ofText_opened (h : Within R A cs T) (before : List (Entry k)) :
    ∃ cuts, Outline.ofText (A ++ k.opener :: leadText before) =
      ⟨k.closer :: cs, .code, (A ++ k.opener :: leadText before).length,
        (lastCut A k before).length :: cuts⟩ := by
  obtain ⟨cuts, hA⟩ := h.passes 0 []
  have hofText : Outline.ofText A = ⟨cs, .code, A.length, cuts⟩ := by
    rw [Nat.zero_add] at hA
    exact hA
  have hopen : Outline.ofText (A ++ [k.opener]) =
      ⟨k.closer :: cs, .code, A.length + 1, (A.length + 1) :: cuts⟩ := by
    rw [Outline.ofText_append, hofText, Outline.after_opener]
  rcases List.eq_nil_or_concat before with rfl | ⟨b, e, rfl⟩
  · have hlen : (A ++ [k.opener]).length = A.length + 1 := by simp
    refine ⟨cuts, ?_⟩
    show Outline.ofText (A ++ [k.opener]) =
      ⟨_, _, (A ++ [k.opener]).length, (A ++ [k.opener]).length :: cuts⟩
    rw [hlen, hopen]
  · have hpasses := (passes_lead (k.closer :: cs) b).append (passes_entry (k.closer :: cs) e)
    obtain ⟨cuts', hbefore⟩ := hpasses (A.length + 1) ((A.length + 1) :: cuts)
    have htext : A ++ k.opener :: leadText (b.concat e) =
        A ++ [k.opener] ++ (leadText b ++ e.text) ++ [','] := by
      rw [List.concat_eq_append, leadText_concat]
      simp
    have hlast : (lastCut A k (b.concat e)).length =
        A.length + 1 + (leadText b ++ e.text).length := by
      rw [List.concat_eq_append, lastCut_concat]
      simp
      omega
    refine ⟨cuts', ?_⟩
    rw [htext, Outline.ofText_append, Outline.ofText_append, hopen, hbefore, Outline.after_comma,
      hlast]
    congr 1
    simp
    omega

/-! ## The next entry -/

/-- `Closes es p`: the text `p` of the next entry is closed to an entry that truncates it. -/
def Closes (es : Entries k) (p : Text) : Prop :=
  ∃ (place : Place) (head : Head k) (item : Tree),
    (∀ cs n cuts, ∃ cuts', Outline.after ⟨cs, .code, n, cuts⟩ p =
      ⟨cs, place, n + p.length, cuts'⟩) ∧
    (∀ o : Outline, o.place = place →
      ∀ t, finish o (t ++ p) = t ++ (head.text .strict ++ item.text .strict)) ∧
    TruncatedEntries es p [(head.name, item.value)]

/-- `Breaks k p`: the text `p` of the next entry is closed to a fault, which has no cuts in it. -/
def Breaks (k : Container) (p : Text) : Prop :=
  ∃ (place : Place) (w : Text),
    (∀ cs n cuts, Outline.after ⟨cs, .code, n, cuts⟩ p = ⟨cs, place, n + p.length, cuts⟩) ∧
    (∀ o : Outline, o.place = place → ∀ t, finish o (t ++ p) = t ++ w) ∧
    (∀ r, dropTrailingCommas (w ++ r) = w ++ dropTrailingCommas r) ∧
    ∀ r, UnreadableEntries k (w ++ k.closer :: r)

/-- A key without its colon is a fault. -/
theorem unreadable_key (before : Gap) {w : Text}
    (hw : (∃ s : Quoted, w = s.strictBody) ∨
      ∀ r, units (w ++ '"' :: r) = .error .malformed) (r : Text) :
    UnreadableEntries .map (before.strict ++ '"' :: (w ++ ['"']) ++ '}' :: r) := by
  have htext : before.strict ++ '"' :: (w ++ ['"']) ++ '}' :: r =
      before.strict ++ '"' :: (w ++ '"' :: '}' :: r) := by simp
  rw [htext]
  refine ⟨(StartsEntry.of_mem (by decide) _).gap before, fun n hn => ?_⟩
  obtain ⟨m, rfl⟩ : ∃ m, n = m + 1 := by
    simp only [List.length_append, List.length_cons] at hn
    exact ⟨n - 1, by omega⟩
  have hname : readName .map ('"' :: (w ++ '"' :: '}' :: r)) = .error .malformed := by
    rw [readName, Reader.string]
    rcases hw with ⟨s, rfl⟩ | hw
    · rw [show s.strictBody = s.glyphs.flatMap fun g => g.1.strict from rfl,
        units_flatMap fun g _ => spellsUnit_strict g.1]
      rfl
    · rw [hw]
      rfl
  refine ⟨.malformed, ?_⟩
  rw [readEntries_succ, skipValueBlanks_append before.blank, skipValueBlanks_cons rfl, hname]
  rfl

/-- Dropping commas leaves a literal behind blanks as it is. -/
theorem dropTrailingCommas_quoted (g : Gap) {w : Text} (hw : Sealed '"' w) (r : Text) :
    dropTrailingCommas (g.strict ++ '"' :: (w ++ ['"']) ++ r) =
      g.strict ++ '"' :: (w ++ ['"']) ++ dropTrailingCommas r := by
  have hgap : ∀ r, dropTrailingCommas (g.strict ++ r) = g.strict ++ dropTrailingCommas r :=
    carries_strict_commas.gap g
  have hliteral := dropTrailingCommas_literal rfl hw r
  rw [List.append_assoc, hgap, List.append_assoc]
  simpa using hliteral

/-- A key that breaks off is a fault. -/
theorem breaks_key (before : Gap) (key : Key) {w : Text} (hw : w <+: key.quoted.strictBody) :
    Breaks .map (before.strict ++ '"' :: w) := by
  obtain ⟨place, v, hafter, hclose, hsealed, hread⟩ := string_beginning key.quoted hw
  refine ⟨place, before.strict ++ '"' :: (v ++ ['"']), ?_, ?_,
    dropTrailingCommas_quoted before hsealed, fun r => unreadable_key before ?_ r⟩
  · intro cs n cuts
    rw [Outline.after_append, Outline.counts_blanks before.blank, hafter, List.length_append,
      Nat.add_assoc]
  · intro o ho t
    have := hclose o ho (t ++ before.strict)
    rw [← List.append_assoc, finish_quote (s := t ++ before.strict ++ '"' :: v)
      (by simpa using this)]
    simp
  · rcases hread with ⟨gs, -, rfl⟩ | hfault
    · exact .inl ⟨_, rfl⟩
    · exact .inr hfault

/-- A key without its colon is a fault, with any blanks behind it. -/
theorem breaks_named (before : Gap) (key : Key) {g : Text} (hg : ∀ c ∈ g, isValueBlank c = true) :
    Breaks .map (before.strict ++ (Pen.strict.key key ++ g)) := by
  have hsealed := sealed_strictBody key.quoted
  refine ⟨.code, before.strict ++ '"' :: (key.quoted.strictBody ++ ['"']), ?_, ?_,
    dropTrailingCommas_quoted before hsealed, unreadable_key before (.inl ⟨_, rfl⟩)⟩
  · exact (Outline.counts_blanks before.blank).append <|
      (Outline.counts_literal hsealed).append (Outline.counts_blanks hg)
  · intro o ho t
    have htext : t ++ (before.strict ++ (Pen.strict.key key ++ g)) =
        (t ++ before.strict ++ '"' :: key.quoted.strictBody) ++ '"' :: g := by
      simp [Pen.strict]
    rw [htext, finish_code ho rfl hg, settleEnd_concat _ (by decide) (by decide)]
    simp

/-- A key with its colon gets a null. -/
theorem closes_colon {es : Entries .map} {before beforeColon afterColon : Gap} {key : Key}
    {g : Text} (hhead : es.first.head = .member before key beforeColon afterColon)
    (hg : g <+: afterColon.strict) :
    Closes es (before.strict ++ (Pen.strict.key key ++ (beforeColon.strict ++ ':' :: g))) := by
  have hblank : ∀ c ∈ g, isValueBlank c = true := fun c hc => afterColon.blank c (hg.mem hc)
  have hcolon : Outline.Counts [':'] := fun _ _ _ => Outline.after_inert (by decide)
  refine ⟨.code, .member before key beforeColon ⟨[' '], by decide, []⟩, .word .null, ?_, ?_, ?_⟩
  · have hcounts := (Outline.counts_blanks before.blank).append <|
      (Outline.counts_literal (sealed_strictBody key.quoted)).append <|
      (Outline.counts_blanks beforeColon.blank).append
        (hcolon.append (Outline.counts_blanks hblank))
    exact fun cs => hcounts.passes cs
  · intro o ho t
    have htext : t ++ (before.strict ++ (Pen.strict.key key ++ (beforeColon.strict ++ ':' :: g))) =
        (t ++ (before.strict ++ (Pen.strict.key key ++ beforeColon.strict))) ++ ':' :: g := by
      simp
    rw [htext, finish_code ho rfl hblank, settleEnd_colon, Tree.text]
    simp [Head.text, Pen.strict, Word.text]
  · rw [Tree.value]
    exact .unstarted hhead hg

/-- An entry that breaks off in a word is closed with a word, or it is a fault. -/
theorem outcome_word {es : Entries k} {w : Word} {p : Text} (hitem : es.first.item = .word w)
    (hp : p <+: w.text) (hne : p ≠ []) : Closes es (es.first.head.text .strict ++ p) ∨
      Breaks k (es.first.head.text .strict ++ p) := by
  have hcounts : Outline.Counts (es.first.head.text .strict ++ p) := by
    refine (Outline.counts_head es.first.head).append fun cs n cuts => Outline.after_inert ?_
    intro c hc
    have hparts : ∀ c ∈ wordParts, Outline.isInert c = true := by decide
    exact hparts c (mem_wordParts w c (hp.mem hc))
  have hends : ∀ c ∈ wordParts, isBlank c = false ∧ c ≠ ',' ∧ c ≠ ':' := by decide
  have hfinish : ∀ o : Outline, o.place = .code →
    ∀ t, finish o (t ++ (es.first.head.text .strict ++ p)) =
      t ++ (es.first.head.text .strict ++ p) := by
    intro o ho t
    rcases List.eq_nil_or_concat p with rfl | ⟨q, c, rfl⟩
    · exact absurd rfl hne
    rw [List.concat_eq_append] at hp ⊢
    obtain ⟨hblank, hcomma, hcolon⟩ := hends c (mem_wordParts w c (hp.mem (by simp)))
    have hnil : ∀ d ∈ ([] : Text), isValueBlank d = true := by simp
    have := finish_code ho hblank hnil (t ++ (es.first.head.text .strict ++ q))
    rw [settleEnd_concat _ hcomma hcolon] at this
    simpa using this
  rcases word_beginning w hp hne with ⟨w', rfl, htruncated⟩ | hfault
  · refine .inl ⟨.code, es.first.head, .word w', fun cs => hcounts.passes cs, ?_, ?_⟩
    · intro o ho t
      rw [Tree.text]
      exact hfinish o ho t
    · rw [Tree.value]
      exact .cut (by rwa [hitem])
  · refine .inr ⟨.code, _, hcounts, hfinish, ?_, ?_⟩
    · intro r
      rw [List.append_assoc, carries_strict_commas.head, List.append_assoc,
        passesCode_dropTrailingCommas.append fun c hc =>
          wordParts_code c (mem_wordParts w c (hp.mem hc))]
    · intro r
      rw [List.append_assoc]
      exact hfault es.first.head r

/-- An entry that breaks off in a string is closed with a beginning of the string, or it is a
fault. -/
theorem outcome_string {es : Entries k} {s : Quoted} {p : Text} (hitem : es.first.item = .string s)
    (hs : ∀ g ∈ s.glyphs, g.1.isSurrogate = false) (hp : p <+: s.strictBody) :
    Closes es (es.first.head.text .strict ++ '"' :: p) ∨
      Breaks k (es.first.head.text .strict ++ '"' :: p) := by
  obtain ⟨place, w, hafter, hclose, hsealed, hread⟩ := string_beginning s hp
  have houtline : ∀ cs n cuts,
      Outline.after ⟨cs, .code, n, cuts⟩ (es.first.head.text .strict ++ '"' :: p) =
        ⟨cs, place, n + (es.first.head.text .strict ++ '"' :: p).length, cuts⟩ := by
    intro cs n cuts
    rw [Outline.after_append, Outline.counts_head, hafter, List.length_append, Nat.add_assoc]
  have hfinish : ∀ o : Outline, o.place = place → ∀ t,
      finish o (t ++ (es.first.head.text .strict ++ '"' :: p)) =
        t ++ (es.first.head.text .strict ++ '"' :: (w ++ ['"'])) := by
    intro o ho t
    have := hclose o ho (t ++ es.first.head.text .strict)
    rw [← List.append_assoc,
      finish_quote (s := t ++ es.first.head.text .strict ++ '"' :: w) (by simpa using this)]
    simp
  rcases hread with ⟨gs, hgs, rfl⟩ | hfault
  · refine .inl ⟨place, es.first.head, .string ⟨gs, false⟩,
      fun cs n cuts => ⟨cuts, houtline cs n cuts⟩, ?_, ?_⟩
    · intro o ho t
      rw [Tree.text]
      exact hfinish o ho t
    · have htruncated := Truncated.string hp (meaning_beginning hs hgs)
      rw [String.ofList_toList] at htruncated
      rw [Tree.value]
      exact .cut (by rwa [hitem])
  · refine .inr ⟨place, _, houtline, hfinish, ?_, ?_⟩
    · intro r
      have hliteral := dropTrailingCommas_literal rfl hsealed r
      rw [List.append_assoc, carries_strict_commas.head, List.append_assoc]
      simpa using hliteral
    · intro r
      have hvalue : Unreadable ('"' :: (w ++ '"' :: k.closer :: r)) := by
        intro n _
        refine ⟨.malformed, ?_⟩
        rw [value, Reader.string, hfault]
        rfl
      have := hvalue.entry es.first.head (by decide)
      simpa using this

/-- An entry that is there to its end is closed as it is. -/
theorem closes_ended (es : Entries k) {g : Text} (hg : g <+: es.first.after.strict) :
    Closes es (es.first.head.text .strict ++ (es.first.item.text .strict ++ g)) := by
  have hblank : ∀ c ∈ g, isValueBlank c = true := fun c hc => es.first.after.blank c (hg.mem hc)
  refine ⟨.code, es.first.head, es.first.item, ?_, ?_, .ended hg⟩
  · intro cs
    exact ((Outline.counts_head es.first.head).passes cs).append <|
      (Outline.passes_text cs es.first.item).append ((Outline.counts_blanks hblank).passes cs)
  · intro o ho t
    rw [← List.append_assoc, finish_value ho _ hblank, List.append_assoc]

/-- **How a text ends in the next entry**: in blanks before it, or so that the entry can be closed,
or with a fault. -/
theorem cut_outcome {es : Entries k} (hs : es.first.item.HasNoSurrogates) {p : Text}
    (h : es.first.Cut p) : (∀ c ∈ p, isValueBlank c = true) ∨ Closes es p ∨ Breaks k p := by
  cases h with
  | head h =>
    generalize hhead : es.first.head = head at h
    cases h with
    | before hg => exact .inl fun c hc => head.before.blank c (hg.mem hc)
    | @key before beforeColon afterColon key w hw => exact .inr (.inr (breaks_key before key hw))
    | @named before beforeColon afterColon key g hg =>
      exact .inr (.inr (breaks_named before key fun c hc => beforeColon.blank c (hg.mem hc)))
    | colon hg => exact .inr (.inl (closes_colon hhead hg))
  | word hitem hp hne => exact .inr (outcome_word hitem hp hne)
  | string hitem hp =>
    rw [hitem] at hs
    exact .inr (outcome_string hitem hs hp)
  | ended hg => exact .inr (.inl (closes_ended es hg))

/-! ## The whole document -/

/-- A text that is closed to a truncation inside a tree is closed to a truncation of the tree. -/
theorem Spelling.Within.exists_close (h : Within R A cs T) (hkeys : R.Every Tree.HasDistinctKeys)
    {t q : Text} {T' : Tree} (htruncated : Truncated T q T'.value)
    (hfinish : finish (Outline.ofText t) t ++ (Outline.ofText t).closers = A ++
      (T'.text .strict ++ cs)) :
    ∃ R' : Tree, close? t = some (R'.text .strict) ∧ Truncated R (A ++ q) R'.value := by
  obtain ⟨R', htext, hR'⟩ := h.exists_truncated hkeys htruncated
  exact ⟨R', close?_eq_some (by rw [hfinish, htext]), hR'⟩

/-- An opening bracket with blanks behind it is closed to an empty container. -/
theorem Spelling.Within.finish_opener (h : Within R A cs T) (k : Container) {g : Text}
    (hg : ∀ c ∈ g, isValueBlank c = true) :
    finish (Outline.ofText (A ++ k.opener :: g)) (A ++ k.opener :: g) ++
      (Outline.ofText (A ++ k.opener :: g)).closers =
        A ++ ((Tree.empty k .tight).text .strict ++ cs) := by
  have hopener : isBlank k.opener = false ∧ k.opener ≠ ',' ∧ k.opener ≠ ':' := by
    cases k <;> decide
  have hpasses := h.passes.append <| (Outline.passes_opener k cs).append <|
    (Outline.counts_blanks hg).passes _
  obtain ⟨cuts, houtline⟩ := hpasses 0 []
  have hofText : Outline.ofText (A ++ k.opener :: g) = ⟨k.closer :: cs, .code, _, cuts⟩ := houtline
  rw [hofText, finish_code rfl hopener.1 hg, settleEnd_concat _ hopener.2.1 hopener.2.2, Tree.text]
  simp [Pen.strict, Gap.tight]

/-- What the outline finds behind an open container and some blanks or none. -/
theorem ofText_opened_append {o : Outline} {before : List (Entry k)}
    (h : Outline.ofText (A ++ k.opener :: leadText before) = o) (p : Text) :
    Outline.ofText (A ++ k.opener :: (leadText before ++ p)) = o.after p := by
  rw [← List.cons_append, ← List.append_assoc, Outline.ofText_append, h]

variable {before : List (Entry k)} {es : Entries k} {p : Text}

/-- An entry that can be closed is closed in its place. -/
theorem Spelling.Within.exists_close_of_closes
    (h : Within R A cs (.filled k (.prepend before es))) (hkeys : R.Every Tree.HasDistinctKeys)
    (hp : Closes es p) :
    ∃ R' : Tree, close? (A ++ k.opener :: (leadText before ++ p)) = some (R'.text .strict) ∧
      Truncated R (A ++ k.opener :: (leadText before ++ p)) R'.value := by
  obtain ⟨place, head, item, hafter, hfinish, htruncated⟩ := hp
  obtain ⟨cuts, hopened⟩ := h.ofText_opened before
  obtain ⟨cuts', houtline⟩ := hafter (k.closer :: cs) (A ++ k.opener :: leadText before).length
    ((lastCut A k before).length :: cuts)
  have hofText := ofText_opened_append hopened p
  rw [houtline] at hofText
  apply h.exists_close hkeys (truncated_oneMore (h.every hkeys).self htruncated)
  have hend := hfinish (Outline.ofText (A ++ k.opener :: (leadText before ++ p))) (by rw [hofText])
    (A ++ k.opener :: leadText before)
  rw [List.append_assoc, List.cons_append] at hend
  rw [hend, hofText, text_oneMore]
  simp

/-- An empty container holds nothing. -/
theorem value_tight (k : Container) : (Tree.empty k .tight).value = k.holding [] := by
  rw [Tree.value]
  exact Container.value_eq_holding fun _ => List.nodup_nil

/-- A container that has lost its next entry is closed behind the others. -/
theorem truncated_without_next (hkeys : (Tree.filled k (.prepend before es)).HasDistinctKeys)
    (hp : p <+: es.first.text) {T' : Tree}
    (hT' : (before = [] ∧ T' = .empty k .tight) ∨ ∃ b e after, before = b ++ [e] ∧
      T' = .filled k (.prepend b (.last e.head e.item after none))) :
    Truncated (.filled k (.prepend before es)) (k.opener :: (leadText before ++ p)) T'.value := by
  rcases hT' with ⟨rfl, rfl⟩ | ⟨b, e, after, rfl, rfl⟩
  · rw [value_tight]
    exact .filled (.missing hp)
  · apply truncated_filled hkeys (.missing hp)
    rw [Entries.pairs_prepend, Entries.pairs]
    simp [Entry.pair]

/-- Blanks behind an open container: the comma before them goes. -/
theorem Spelling.Within.exists_close_of_blanks
    (h : Within R A cs (.filled k (.prepend before es))) (hkeys : R.Every Tree.HasDistinctKeys)
    (hp : p <+: es.first.text) (hblank : ∀ c ∈ p, isValueBlank c = true) :
    ∃ R' : Tree, close? (A ++ k.opener :: (leadText before ++ p)) = some (R'.text .strict) ∧
      Truncated R (A ++ k.opener :: (leadText before ++ p)) R'.value := by
  have hself := (h.every hkeys).self
  obtain ⟨cuts, hopened⟩ := h.ofText_opened before
  rcases List.eq_nil_or_concat before with rfl | ⟨b, e, rfl⟩
  · exact h.exists_close hkeys (truncated_without_next hself hp (.inl ⟨rfl, rfl⟩))
      (h.finish_opener k hblank)
  · have hofText := ofText_opened_append hopened p
    rw [Outline.counts_blanks hblank] at hofText
    apply h.exists_close hkeys
      (truncated_without_next hself hp (.inr ⟨b, e, e.after, List.concat_eq_append, rfl⟩))
    have htext : A ++ k.opener :: (leadText (b.concat e) ++ p) =
        (A ++ k.opener :: (leadText b ++ e.text)) ++ ',' :: p := by
      rw [List.concat_eq_append, leadText_concat]
      simp
    rw [hofText, htext, finish_code rfl rfl hblank, settleEnd_comma, Tree.text,
      Entries.text_prepend, Entries.text_last]
    simp

/-- Cut back to its last comma or opening bracket, an open container is closed behind its
entries. -/
theorem Spelling.Within.exists_close_lastCut
    (h : Within R A cs (.filled k (.prepend before es))) (hkeys : R.Every Tree.HasDistinctKeys)
    (hp : p <+: es.first.text) :
    ∃ R' : Tree, close? (lastCut A k before) = some (R'.text .strict) ∧
      Truncated R (A ++ k.opener :: (leadText before ++ p)) R'.value := by
  have hself := (h.every hkeys).self
  rcases List.eq_nil_or_concat before with rfl | ⟨b, e, rfl⟩
  · exact h.exists_close hkeys (truncated_without_next hself hp (.inl ⟨rfl, rfl⟩))
      (h.finish_opener k (by simp))
  · apply h.exists_close hkeys
      (truncated_without_next hself hp (.inr ⟨b, e, .tight, List.concat_eq_append, rfl⟩))
    obtain ⟨cuts, hopened⟩ := h.ofText_opened b
    obtain ⟨cuts', houtline⟩ := passes_entry (k.closer :: cs) e
      (A ++ k.opener :: leadText b).length ((lastCut A k b).length :: cuts)
    have hofText := ofText_opened_append hopened e.text
    rw [houtline] at hofText
    have hend := finish_value (o := Outline.ofText (A ++ k.opener :: (leadText b ++ e.text)))
      (by rw [hofText]) e.item e.after.blank (A ++ k.opener :: (leadText b ++ e.head.text .strict))
    rw [List.append_assoc, List.cons_append, List.append_assoc, ← Entry.text] at hend
    rw [List.concat_eq_append, lastCut_concat, hend, hofText]
    show _ = A ++ ((oneMore b e.head e.item).text .strict ++ cs)
    rw [text_oneMore]
    simp

/-- With a fault in its next entry an open container is not closed, and its last cut is the first
one that is tried. -/
theorem Spelling.Within.close?_of_breaks (h : Within R A cs (.filled k (.prepend before es)))
    (hp : Breaks k p) : close? (A ++ k.opener :: (leadText before ++ p)) = none ∧
      ∃ cuts, (Outline.ofText (A ++ k.opener :: (leadText before ++ p))).cuts =
        (lastCut A k before).length :: cuts := by
  obtain ⟨place, w, hafter, hfinish, hcommas, hfault⟩ := hp
  obtain ⟨cuts, hopened⟩ := h.ofText_opened before
  have hofText := ofText_opened_append hopened p
  rw [hafter] at hofText
  refine ⟨?_, cuts, by rw [hofText]⟩
  have hend := hfinish (Outline.ofText (A ++ k.opener :: (leadText before ++ p))) (by rw [hofText])
    (A ++ k.opener :: leadText before)
  rw [List.append_assoc, List.cons_append] at hend
  have hentries := (hfault cs).lead before
  have hcarries := carries_strict_commas
  have hopener : StartsEntry (k.opener :: (leadText before ++ (w ++ k.closer :: cs))) :=
    .of_mem (by cases k <;> decide) _
  apply close?_eq_none (u := A ++ k.opener :: (leadText before ++ (w ++ k.closer :: cs)))
  · rw [hend, hofText]
    have htext : A ++ k.opener :: leadText before ++ w ++ k.closer :: cs =
        A ++ k.opener :: (leadText before ++ (w ++ k.closer :: cs)) := by simp
    rw [htext, h.dropTrailingCommas_eq hopener, hcarries.opener,
      dropTrailingCommas_lead before (hfault cs).starts, hcommas, hcarries.closer,
      h.dropTrailingCommas_closers]
  · exact h.isStrict_eq_false hentries.container

/-- What closing tries first: the text itself, and if that fails the text up to its last cut. -/
def ClosedTo (q r : Text) : Prop :=
  close? q = some r ∨ close? q = none ∧ ∃ m cuts, (Outline.ofText q).cuts = m :: cuts ∧
    close? (q.take m) = some r

/-- The last cut is found by its length, whatever follows. -/
theorem take_lastCut (A : Text) (before : List (Entry k)) (p : Text) :
    (A ++ k.opener :: (leadText before ++ p)).take (lastCut A k before).length =
      lastCut A k before := by
  rcases List.eq_nil_or_concat before with rfl | ⟨b, e, rfl⟩
  · have htext : A ++ k.opener :: (leadText (k := k) [] ++ p) = A ++ [k.opener] ++ p := by
      simp [leadText]
    rw [lastCut_nil, htext, List.take_left']
    rfl
  · rw [List.concat_eq_append, lastCut_concat, leadText_concat, show
      A ++ k.opener :: (leadText b ++ (e.text ++ [',']) ++ p) =
        (A ++ k.opener :: (leadText b ++ e.text)) ++ ',' :: p by simp, List.take_left']
    rfl

/-- **Where a document breaks off, it is closed to a tree that truncates it.** -/
theorem exists_closed {q : Text} (h : R.Cut q) (hkeys : R.Every Tree.HasDistinctKeys)
    (hsurrogates : R.Every Tree.HasNoSurrogates) :
    ∃ R' : Tree, ClosedTo q (R'.text .strict) ∧ Truncated R q R'.value := by
  cases h with
  | @empty A cs k inside g hwithin hg =>
    have htruncated : Truncated (.empty k inside) (k.opener :: g) (Tree.empty k .tight).value := by
      rw [value_tight]
      exact .empty hg
    obtain ⟨R', hclose, hR'⟩ := hwithin.exists_close hkeys htruncated
      (hwithin.finish_opener k fun c hc => inside.blank c (hg.mem hc))
    exact ⟨R', .inl hclose, hR'⟩
  | @entry A cs k before es p hwithin hp hcut =>
    have hfirst : es.first.item.HasNoSurrogates := by
      have := hwithin.every hsurrogates
      rw [Tree.Every] at this
      exact (this.2.first before).self
    rcases cut_outcome hfirst hcut with hblank | hcloses | hbreaks
    · obtain ⟨R', hclose, hR'⟩ := hwithin.exists_close_of_blanks hkeys hp hblank
      exact ⟨R', .inl hclose, hR'⟩
    · obtain ⟨R', hclose, hR'⟩ := hwithin.exists_close_of_closes hkeys hcloses
      exact ⟨R', .inl hclose, hR'⟩
    · obtain ⟨hnone, cuts, hcuts⟩ := hwithin.close?_of_breaks hbreaks
      obtain ⟨R', hclose, hR'⟩ := hwithin.exists_close_lastCut hkeys hp
      refine ⟨R', .inr ⟨hnone, _, cuts, hcuts, ?_⟩, hR'⟩
      rw [take_lastCut, hclose]

end ShapedReply
