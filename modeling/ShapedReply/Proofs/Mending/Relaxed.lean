import ShapedReply.Proofs.Mending.Keys
import ShapedReply.Proofs.Spelling.Parsing
import ShapedReply.Proofs.Text.Trim

/-!
# Mending relaxed documents

A relaxed text is a tree between two gaps, perhaps with a remark at its very end. Trimming keeps
that form: it takes blanks off the gaps, and it may turn a comment at the end of a gap into the
remark (`exists_trim_loose`). The five stages then take one relaxation each out of the tree
(`stages_document`), and what is left is the text of the tree by the pen without relaxations, which
is legible.

* `read_mend?_of_relaxes`: **every relaxation of a strict text is mended, and the mended text reads
  as the strict one does.**
-/

namespace ShapedReply

open Text Reader Spelling Mend

/-! ## Trimming a relaxed document -/

/-- What may stand behind a relaxed document: pieces, and then a remark of one line or none. -/
def IsTail (t : Text) : Prop :=
  ∃ (ps : List Piece) (remark : Option Text), (∀ body ∈ remark, '\n' ∉ body) ∧
    t = Looseness.full.pieces ps ++ remarkText remark

/-- Pieces are spelled one by one. -/
theorem pieces_append (l : Looseness) (ps qs : List Piece) :
    l.pieces (ps ++ qs) = l.pieces ps ++ l.pieces qs :=
  List.flatMap_append

/-- A remark that is trimmed at its end is a remark. -/
theorem isTail_remark (ps : List Piece) {body : Text} (h : '\n' ∉ body) :
    IsTail (Looseness.full.pieces ps ++ '/' :: '/' :: trimEnd body) := by
  refine ⟨ps, some (trimEnd body), ?_, rfl⟩
  intro b hb
  cases hb
  exact fun hmem => h (mem_of_mem_trimEnd hmem)

/-- What is trimmed off pieces at the end leaves pieces, perhaps with a remark. -/
theorem exists_trimEnd_pieces (ps : List Piece) :
    ∃ tail, IsTail tail ∧ ∀ (c : Char) (s : Text), isBlank c = false →
      trimEnd (s ++ c :: Looseness.full.pieces ps) = s ++ c :: tail := by
  induction ps using List.reverseRecOn with
  | nil =>
    refine ⟨[], ⟨[], none, by simp, rfl⟩, fun c s hc => ?_⟩
    rw [trimEnd_append hc]
    rfl
  | append_singleton ps p ih =>
    have hlast : Looseness.full.pieces (ps ++ [p]) = Looseness.full.pieces ps ++ p.text := by
      rw [pieces_append]
      simp [Looseness.pieces, Looseness.full]
    cases p with
    | blank d hd =>
      obtain ⟨tail, htail, htrim⟩ := ih
      refine ⟨tail, htail, fun c s hc => ?_⟩
      rw [hlast, Piece.text, ← List.cons_append, ← List.append_assoc,
        trimEnd_concat_of_blank (isBlank_of_isValueBlank hd), htrim c s hc]
    | line body hbody =>
      refine ⟨_, isTail_remark ps hbody, fun c s hc => ?_⟩
      have htext : s ++ c :: Looseness.full.pieces (ps ++ [.line body hbody]) =
          (s ++ c :: (Looseness.full.pieces ps ++ ['/'])) ++ '/' :: (body ++ ['\n']) := by
        rw [hlast]
        simp [Piece.text]
      rw [htext, trimEnd_append rfl, trimEnd_concat_of_blank rfl]
      simp
    | block body hbody =>
      refine ⟨_, ⟨ps ++ [.block body hbody], none, by simp, rfl⟩, fun c s hc => ?_⟩
      have htext : s ++ c :: Looseness.full.pieces (ps ++ [.block body hbody]) =
          (s ++ c :: (Looseness.full.pieces ps ++ '/' :: '*' :: (body ++ ['*']))) ++ ['/'] := by
        rw [hlast]
        simp [Piece.text]
      rw [htext, trimEnd_concat rfl, ← htext]
      simp [remarkText]

/-- **What is trimmed off the end of a relaxed document leaves a relaxed document.** -/
theorem exists_trimEnd_tail {tail : Text} (h : IsTail tail) :
    ∃ tail', IsTail tail' ∧ ∀ (c : Char) (s : Text), isBlank c = false →
      trimEnd (s ++ c :: tail) = s ++ c :: tail' := by
  obtain ⟨ps, remark, hline, rfl⟩ := h
  rcases remark with _ | body
  · rw [remarkText, List.append_nil]
    exact exists_trimEnd_pieces ps
  · refine ⟨_, isTail_remark ps (hline body rfl), fun c s hc => ?_⟩
    have htext : s ++ c :: (Looseness.full.pieces ps ++ remarkText (some body)) =
        (s ++ c :: (Looseness.full.pieces ps ++ ['/'])) ++ '/' :: body := by
      simp [remarkText]
    rw [htext, trimEnd_append rfl]
    simp

/-- Blanks before a relaxed document go, and pieces are left. -/
theorem exists_trimStart_pieces (ps : List Piece) {c : Char} (hc : isBlank c = false) (r : Text) :
    ∃ qs, trimStart (Looseness.full.pieces ps ++ c :: r) = Looseness.full.pieces qs ++ c :: r := by
  induction ps with
  | nil => exact ⟨[], trimStart_cons hc r⟩
  | cons p ps ih =>
    have hfirst : Looseness.full.pieces (p :: ps) = p.text ++ Looseness.full.pieces ps := rfl
    cases p with
    | blank d hd =>
      obtain ⟨qs, hqs⟩ := ih
      refine ⟨qs, ?_⟩
      rw [hfirst, Piece.text, List.append_assoc, trimStart_append, hqs]
      simpa using isBlank_of_isValueBlank hd
    | line body hbody =>
      refine ⟨.line body hbody :: ps, ?_⟩
      rw [hfirst]
      exact trimStart_cons rfl _
    | block body hbody =>
      refine ⟨.block body hbody :: ps, ?_⟩
      rw [hfirst]
      exact trimStart_cons rfl _

/-- A value starts with no blank. -/
theorem valueStarts_blank : ∀ c ∈ valueStarts, isBlank c = false := by decide

/-- A value ends with no blank. -/
theorem valueEnds_blank : ∀ c ∈ valueEnds, isBlank c = false := by decide

/-- A relaxed tree ends with no blank. -/
theorem exists_loose_eq_concat (l : Looseness) (T : Tree) :
    ∃ r c, T.text (.loose l) = r ++ [c] ∧ c ∈ valueEnds := by
  apply exists_text_eq_concat
  intro s
  refine ⟨l.quote s :: s.looseBody (l.quote s) l.rawControls, l.quote s, rfl, ?_⟩
  rcases eq_quote (isCode_quote l s) with h | h
  · rw [h]
    decide
  · rw [h]
    decide

/-- **Trimming a relaxed document leaves a relaxed document with the same tree.** -/
theorem exists_trim_loose (d : Document) :
    ∃ ps tail, IsTail tail ∧
      trim d.loose = Looseness.full.pieces ps ++ (d.root.text (.loose .full) ++ tail) := by
  obtain ⟨c, r, hstart, hc⟩ := exists_loose_eq_cons .full d.root
  obtain ⟨s, e, hend, he⟩ := exists_loose_eq_concat .full d.root
  obtain ⟨tail, htail, htrim⟩ := exists_trimEnd_tail ⟨d.after.loose, d.remark, d.oneLine, rfl⟩
  obtain ⟨ps, hps⟩ := exists_trimStart_pieces d.before.loose (valueStarts_blank c hc)
    (r ++ (Looseness.full.pieces d.after.loose ++ remarkText d.remark))
  refine ⟨ps, tail, htail, ?_⟩
  have hloose : d.loose = Looseness.full.pieces d.before.loose ++
      c :: (r ++ (Looseness.full.pieces d.after.loose ++ remarkText d.remark)) := by
    rw [Document.loose, hstart]
    simp
  have hroot : c :: (r ++ (Looseness.full.pieces d.after.loose ++ remarkText d.remark)) =
      s ++ e :: (Looseness.full.pieces d.after.loose ++ remarkText d.remark) := by
    rw [← List.cons_append, ← hstart, hend]
    simp
  rw [trim, hloose, hps, hroot, ← List.append_assoc, htrim e _ (valueEnds_blank e he), hend]
  simp

/-! ## The stages on a document -/

/-- A remark goes with the comments. -/
theorem strip_remark {remark : Option Text} (h : ∀ body ∈ remark, '\n' ∉ body) :
    stripFrom .code (remarkText remark) = [] := by
  rcases remark with _ | body
  · rfl
  · rw [remarkText, stripFrom]
    exact stripFrom_line_end (h body rfl)

/-- A stage that turns trees turns a tree between blanks. -/
theorem Carries.between {F : Text → Text} {pen pen' : Pen} (h : Carries F pen pen')
    (hnil : F [] = []) (T : Tree) {g g' : Text} (hg : ∀ c ∈ g, isValueBlank c = true)
    (hg' : ∀ c ∈ g', isValueBlank c = true) :
    F (g ++ (T.text pen ++ g')) = g ++ (T.text pen' ++ g') := by
  have hend : F g' = g' := by
    have := h.code.append (fun c hc => code_of_isBlank (forall_isBlank hg' c hc)) []
    rwa [hnil, List.append_nil] at this
  rw [h.code.append fun c hc => code_of_isBlank (forall_isBlank hg c hc), carries_text h T, hend]

/-- The stage for bare keys turns a tree between blanks. -/
theorem CarriesKeys.between {pen pen' : Pen} (h : CarriesKeys pen pen') (T : Tree) {g g' : Text}
    (hg : ∀ c ∈ g, isValueBlank c = true) (hg' : ∀ c ∈ g', isValueBlank c = true) :
    quoteKeys (g ++ (T.text pen ++ g')) = g ++ (T.text pen' ++ g') := by
  have hends : endsKey g' = false := endsKey_append_blanks [] (forall_isBlank hg')
  have hend : quoteKeysIn .elsewhere g' = g' := by
    have := quoteKeysIn_append (k := .elsewhere) (by simp) (forall_isBlank hg') []
    rw [List.append_nil] at this
    rw [this]
    exact List.append_nil g'
  rw [quoteKeys_eq, quoteKeysIn_append (by simp) (forall_isBlank hg),
    quoteKeysIn_text h T (by simp) hends, hend]

/-- **All stages take all relaxations out of a document**: its tree is left, by the pen without
relaxations, between blanks. -/
theorem stages_loose (T : Tree) (ps : List Piece) {tail : Text} (htail : IsTail tail) :
    ∃ g g', (∀ c ∈ g, isValueBlank c = true) ∧ (∀ c ∈ g', isValueBlank c = true) ∧
      applyAll stages (Looseness.full.pieces ps ++ (T.text (.loose .full) ++ tail)) =
        g ++ T.text (.loose .clean) ++ g' := by
  obtain ⟨qs, remark, hline, rfl⟩ := htail
  have hg : ∀ c ∈ Looseness.withoutComments.pieces ps, isValueBlank c = true :=
    isValueBlank_of_mem_pieces rfl ps
  have hg' : ∀ c ∈ Looseness.withoutComments.pieces qs, isValueBlank c = true :=
    isValueBlank_of_mem_pieces rfl qs
  refine ⟨_, _, hg, hg', ?_⟩
  simp only [applyAll, stages, List.foldl_cons, List.foldl_nil, Stage.apply]
  rw [stripComments, strip_pieces .full .withoutComments rfl rfl, carries_text carries_strip,
    strip_pieces .full .withoutComments rfl rfl, strip_remark hline, List.append_nil,
    carries_dropTrailingCommas.between rfl T hg hg', carriesKeys_loose.between T hg hg',
    carries_requote.between rfl T hg hg', carries_escapeControls.between rfl T hg hg',
    List.append_assoc]

/-! ## Mending -/

/-- A document that is mended is its tree by the pen without relaxations. -/
theorem mend?_loose (d : Document) : mend? d.loose = some (d.root.text (.loose .clean)) := by
  obtain ⟨ps, tail, htail, htrim⟩ := exists_trim_loose d
  obtain ⟨g, g', hg, hg', hstages⟩ := stages_loose d.root ps htail
  obtain ⟨c, s, hstart, hc⟩ := exists_loose_eq_cons .clean d.root
  obtain ⟨s', e, hend, he⟩ := exists_loose_eq_concat .clean d.root
  have hstrict : isStrict (d.root.text (.loose .clean)) = true := by
    rw [isStrict, read_text_alone legible_clean]
  have hmended : trim (applyAll stages (trim d.loose)) = d.root.text (.loose .clean) := by
    rw [htrim, hstages]
    exact trim_append (forall_isBlank hg) (forall_isBlank hg') hstart (valueStarts_blank c hc) hend
      (valueEnds_blank e he)
  rw [mend?, hmended]
  exact if_pos hstrict

/-- **Every relaxation of a strict text is mended, and the mended text reads as the strict one.** -/
theorem read_mend?_of_relaxes {u t : Text} (h : Relaxes u t) :
    ∃ r v, mend? t = some r ∧ Value.read r = .ok v ∧ Value.read u = .ok v := by
  obtain ⟨d, rfl, rfl⟩ := h
  exact ⟨_, d.root.value, mend?_loose d, read_text_alone legible_clean d.root, read_strict d⟩

/-- A document in which literals and comments hold brackets, quotes and comment marks. -/
def relaxedNote : Document where
  before := ⟨[], by simp, [.line [' ', '{'] (by decide)]⟩
  root := .filled .map <|
    .more (.member ⟨[], by simp, []⟩
        ⟨⟨[(.plain 'a' (by decide), false)], false⟩, some ['a'], by decide⟩
        ⟨[], by simp, []⟩ ⟨[' '], by decide, [.block [' ', ']', ' '] (by decide)]⟩)
      (.filled .array <|
        .more (.item ⟨[], by simp, []⟩)
          (.string ⟨[(.plain '\'' (by decide), false), (.escape '"' '"' rfl, true),
            (.plain '/' (by decide), false), (.plain '/' (by decide), false)], true⟩)
          ⟨[], by simp, []⟩ <|
        .last (.item ⟨[' '], by decide, []⟩) (.word (.number ['1'] (.int 1) rfl)) ⟨[], by simp, []⟩
          (some [.blank ' ' rfl]))
      ⟨[], by simp, []⟩ <|
    .last (.member ⟨[' '], by decide, []⟩
        ⟨⟨[(.plain 'b' (by decide), false), (.plain ' ' (by decide), false)], true⟩, none, by simp⟩
        ⟨[], by simp, []⟩ ⟨[], by simp, []⟩)
      (.string ⟨[(.plain '}' (by decide), false), (.escape 'n' '\n' rfl, true)], false⟩)
      ⟨[], by simp, []⟩ (some [])
  after := ⟨[], by simp, [.blank '\n' rfl]⟩
  remark := some [' ', ']']
  oneLine := by decide

/-- All relaxations at once, with brackets, quotes and comment marks inside literals and
comments. -/
theorem read_mend?_relaxedNote :
    Relaxes "\x7b\"a\": [\"'\\\"//\", 1], \"b \":\"\x7d\\n\"\x7d".toList
      "// \x7b\n\x7ba:/* ] */['\\'\"//',1, ],'b ':\"\x7d\n\",\x7d\n// ]".toList ∧
    ∃ r v, mend? "// \x7b\n\x7ba:/* ] */['\\'\"//',1, ],'b ':\"\x7d\n\",\x7d\n// ]".toList =
      some r ∧
      Value.read r = .ok v ∧
      Value.read "\x7b\"a\": [\"'\\\"//\", 1], \"b \":\"\x7d\\n\"\x7d".toList = .ok v :=
  have h : Relaxes "\x7b\"a\": [\"'\\\"//\", 1], \"b \":\"\x7d\\n\"\x7d".toList
      "// \x7b\n\x7ba:/* ] */['\\'\"//',1, ],'b ':\"\x7d\n\",\x7d\n// ]".toList :=
    ⟨relaxedNote, by decide, by decide⟩
  ⟨h, read_mend?_of_relaxes h⟩

end ShapedReply
