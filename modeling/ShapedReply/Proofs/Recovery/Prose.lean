import ShapedReply.Proofs.Completion.Cut
import ShapedReply.Proofs.Loose.Nesting
import ShapedReply.Proofs.Recovery.FixedPoints

/-!
# A document in prose

A strict document that stands somewhere in a text is found by its brackets. The search for the end
of a span knows strict literals only, and in a strict document there are no others, so it ends where
the document ends, whatever follows.

* `nested_text`, `exists_nested_entries`: **the brackets of a tree are nested, and the entries of a
  container are nested text before its closer.** The two go by one induction on the tree.
* `isSpan_text`: a container is one span. It is found as such with any text behind it
  (`spanLength?_text`).
* `trim_prose`: a text that is strict as a whole holds no more than the document. Before the
  document stands neither a bracket nor a quote, so the whole text would be a word, and a word has
  no brackets.
* `recover?_prose`: **the document is recovered as it stands.**
-/

namespace ShapedReply

open Text Reader Spelling

namespace Bracket

/-! ## Nested text -/

/-- What changes nothing in an outline is plain. -/
theorem isPlain_of_isInert {c : Char} (hc : Outline.isInert c = true) :
    isPlain strictQuotes c = true := by
  obtain ⟨hopener, hcloser, -, hnext⟩ := Outline.code_of_isInert hc
  have hquote : strictQuotes.contains c = false := by
    rw [Place.next] at hnext
    split at hnext
    · cases hnext
    · next hnot => exact eq_false_of_ne_true hnot
  rw [isPlain, isOpener, hopener, hcloser, hquote]
  rfl

/-- Code without quotes, brackets and commas is nested. -/
theorem nested_inert {w : Text} (hw : ∀ c ∈ w, Outline.isInert c = true) :
    Nested strictQuotes w := by
  induction w with
  | nil => exact .nil
  | cons c w ih =>
    rw [List.forall_mem_cons] at hw
    exact .plain (isPlain_of_isInert hw.1) (ih hw.2)

/-- A comma is nested. -/
theorem nested_comma : Nested strictQuotes [','] :=
  .plain rfl .nil

/-- Blanks are nested. -/
theorem nested_blanks {g : Text} (hg : ∀ c ∈ g, isValueBlank c = true) : Nested strictQuotes g := by
  apply nested_inert
  exact fun c hc => Outline.isInert_of_isValueBlank (hg c hc)

/-- A string in quotes is nested, whatever brackets it has. -/
theorem nested_literal {body : Text} (h : Sealed '"' body) :
    Nested strictQuotes ('"' :: (body ++ ['"'])) :=
  .literal List.mem_cons_self h .nil

/-- A container is closed by its own bracket. -/
theorem closerOf?_opener (k : Container) : closerOf? k.opener = some k.closer := by
  cases k <;> rfl

/-! ## Trees -/

/-- What stands before the item of an entry is nested. -/
theorem nested_head {k : Container} (head : Head k) : Nested strictQuotes (head.text .strict) := by
  cases head with
  | item before => exact nested_blanks before.blank
  | member before key beforeColon afterColon =>
    have hcolon : Nested strictQuotes [':'] := .plain rfl .nil
    rw [Head.text_strict_member]
    exact (nested_blanks before.blank).append <|
      (nested_literal (sealed_strictBody key.quoted)).append <|
      (nested_blanks beforeColon.blank).append (hcolon.append (nested_blanks afterColon.blank))

mutual

/-- **The brackets of a strict tree are nested.** -/
theorem nested_text : (T : Tree) → Nested strictQuotes (T.text .strict)
  | .word w => by
    have hparts : ∀ c ∈ wordParts, Outline.isInert c = true := by decide
    rw [Tree.text]
    exact nested_inert fun c hc => hparts c (mem_wordParts w c hc)
  | .string s => by
    rw [Tree.text]
    exact nested_literal (sealed_strictBody s)
  | .empty k inside => by
    rw [Tree.text]
    exact .group (closerOf?_opener k) (nested_blanks inside.blank) .nil
  | .filled k es => by
    obtain ⟨inner, hinner, htext⟩ := exists_nested_entries es
    rw [Tree.text, htext]
    exact .group (closerOf?_opener k) hinner .nil

/-- The entries of a container are nested text before its closer. -/
theorem exists_nested_entries {k : Container} : (es : Entries k) →
    ∃ inner, Nested strictQuotes inner ∧ es.text .strict = inner ++ [k.closer]
  | .last head item gap trailing => by
    refine ⟨head.text .strict ++ (item.text .strict ++ gap.strict), ?_, by
      rw [Entries.text_strict_last]
      simp⟩
    exact (nested_head head).append ((nested_text item).append (nested_blanks gap.blank))
  | .more head item gap rest => by
    obtain ⟨inner, hinner, htext⟩ := exists_nested_entries rest
    refine ⟨head.text .strict ++ (item.text .strict ++ (gap.strict ++ ([','] ++ inner))), ?_, by
      rw [Entries.text_strict_more, htext]
      simp⟩
    exact (nested_head head).append <| (nested_text item).append <|
      (nested_blanks gap.blank).append <|
      nested_comma.append hinner

end

/-- **A strict container is one span.** -/
theorem isSpan_text {T : Tree} (hT : T.isContainer = true) :
    IsSpan strictQuotes (T.text .strict) := by
  rw [isSpan_iff areQuotes_strict]
  cases T with
  | word w => cases hT
  | string s => cases hT
  | empty k inside =>
    rw [Tree.text]
    exact ⟨k.opener, k.closer, _, closerOf?_opener k, nested_blanks inside.blank, rfl⟩
  | filled k es =>
    obtain ⟨inner, hinner, htext⟩ := exists_nested_entries es
    rw [Tree.text, htext]
    exact ⟨k.opener, k.closer, inner, closerOf?_opener k, hinner, rfl⟩

/-- The span at the front of a container is its whole text. -/
theorem spanLength?_text {T : Tree} (hT : T.isContainer = true) (r : Text) :
    spanLength? strictQuotes (T.text .strict ++ r) = some (T.text .strict).length :=
  spanLength?_of_isSpan areQuotes_strict (isSpan_text hT) r

/-- The first span of a text is the container at its first opening bracket. -/
theorem spans_prose {T : Tree} (hT : T.isContainer = true) {pre : Text}
    (hpre : ∀ c ∈ pre, isOpener c = false) {c : Char} {s : Text} (hstart : T.text .strict = c :: s)
    (hc : isOpener c = true) (post : Text) :
    ∃ rest, spans strictQuotes (pre ++ (T.text .strict ++ post)) = T.text .strict :: rest := by
  have hspan := spanLength?_text hT post
  have htake : (T.text .strict ++ post).take (T.text .strict).length = T.text .strict :=
    List.take_left
  rw [spans, spansFrom_append hpre]
  rw [hstart, List.cons_append] at hspan htake ⊢
  refine ⟨spansFrom strictQuotes ((c :: s).length - 1) (s ++ post), ?_⟩
  rw [spansFrom, if_pos hc, hspan]
  exact congrArg (· :: _) htake

end Bracket

/-! ## The document and the text around it -/

/-- A tree that starts with an opening bracket is a container. -/
theorem isContainer_of_isOpener {T : Tree} {c : Char} {s : Text} (hstart : T.text .strict = c :: s)
    (hc : Bracket.isOpener c = true) : T.isContainer = true := by
  cases T with
  | word w =>
    have hparts : ∀ c ∈ wordParts, Bracket.isOpener c = false := by decide
    rw [Tree.text] at hstart
    have := hparts c (mem_wordParts w c (by rw [hstart]; exact List.mem_cons_self))
    rw [hc] at this
    cases this
  | string q =>
    rw [Tree.text] at hstart
    cases hstart
    cases hc
  | empty k inside => rfl
  | filled k es => rfl

/-- A tree that starts with neither a bracket nor a quote has no opening bracket. -/
theorem isOpener_of_mem_text {T : Tree} {d : Char} {s : Text} (hstart : T.text .strict = d :: s)
    (hd : Bracket.isOpener d = false) (hquote : d ≠ '"') :
    ∀ c ∈ T.text .strict, Bracket.isOpener c = false := by
  have hparts : ∀ c ∈ wordParts, Bracket.isOpener c = false := by decide
  have hbracket : ∀ (k : Container) {t : Text}, k.opener :: t ≠ d :: s := by
    rintro k t ⟨⟩
    cases k <;> cases hd
  cases T with
  | word w =>
    rw [Tree.text]
    exact fun c hc => hparts c (mem_wordParts w c hc)
  | string q =>
    rw [Tree.text] at hstart
    cases hstart
    exact absurd rfl hquote
  | empty k inside =>
    rw [Tree.text] at hstart
    exact absurd hstart (hbracket k)
  | filled k es =>
    rw [Tree.text] at hstart
    exact absurd hstart (hbracket k)

variable {T : Tree} {pre post s : Text} {c : Char}

/-- **A text that is strict as a whole holds no more than the document in it.** -/
theorem trim_prose (hstart : T.text .strict = c :: s) (hc : Bracket.isOpener c = true)
    (hpre : ∀ d ∈ pre, Bracket.isOpener d = false ∧ d ≠ '"')
    (hstrict : isStrict (trim (pre ++ (T.text .strict ++ post))) = true) :
    trim (pre ++ (T.text .strict ++ post)) = T.text .strict := by
  have hblank : isBlank c = false := (code_of_isOpener hc).2.2.2
  obtain ⟨U, hU⟩ := exists_tree_of_trim hstrict (trim_trim _)
  rcases hlead : trimStart pre with _ | ⟨d, lead⟩
  · -- only blanks stand before the document, so the whole text starts with it
    have hskip : trimStart (pre ++ (T.text .strict ++ post)) = T.text .strict ++ post := by
      rw [hstart, List.cons_append, trimStart_append_cons hblank, hlead]
      rfl
    obtain ⟨r, k, hend, hk⟩ := exists_strict_eq_concat T
    have htrim : trim (pre ++ (T.text .strict ++ post)) = T.text .strict ++ trimEnd post := by
      rw [trim, hskip, hend, List.append_assoc, List.singleton_append,
        trimEnd_append (valueEnds_blank k hk), List.append_assoc, List.singleton_append]
    rw [htrim] at hU ⊢
    have hT : T.isContainer = true := isContainer_of_isOpener hstart hc
    have hUcontainer : U.isContainer = true := by
      apply isContainer_of_isOpener (s := s ++ trimEnd post) _ hc
      rw [← hU, hstart, List.cons_append]
    -- both documents are the span at the start
    have hlength : (U.text .strict).length = (T.text .strict).length := by
      have hspan := Bracket.spanLength?_text hUcontainer []
      rw [List.append_nil, ← hU, Bracket.spanLength?_text hT, hU] at hspan
      exact (Option.some.inj hspan).symm
    have hpost : trimEnd post = [] := by
      have := congrArg List.length hU
      rw [List.length_append, hlength] at this
      exact List.length_eq_zero_iff.mp (by omega)
    rw [hpost, List.append_nil]
  · -- otherwise the whole text starts with a character of the prose, and cannot hold a bracket
    have hd : d ∈ pre :=
      List.dropWhile_subset _ (by rw [← trimStart, hlead]; exact List.mem_cons_self)
    have hskip : trimStart (pre ++ (T.text .strict ++ post)) =
        d :: lead ++ c :: (s ++ post) := by
      rw [hstart, List.cons_append, trimStart_append_cons hblank, hlead]
    have htrim : trim (pre ++ (T.text .strict ++ post)) =
        d :: (lead ++ c :: trimEnd (s ++ post)) := by
      rw [trim, hskip, trimEnd_append hblank]
      rfl
    have hopener := isOpener_of_mem_text (hU.symm.trans htrim) (hpre d hd).1 (hpre d hd).2 c (by
      rw [← hU, htrim]
      simp)
    rw [hc] at hopener
    cases hopener

/-- A text that holds the document does not break off. -/
theorem isCutOff_prose (hstart : T.text .strict = c :: s) (hc : Bracket.isOpener c = true)
    (hpre : ∀ d ∈ pre, Bracket.isOpener d = false) (post : Text) :
    isCutOff (pre ++ (T.text .strict ++ post)) = false := by
  have hfrom : Bracket.fromOpener (pre ++ (T.text .strict ++ post)) = c :: (s ++ post) := by
    rw [hstart]
    exact Bracket.fromOpener_append_cons hpre hc (s ++ post)
  have hspan := Bracket.spanLength?_text (isContainer_of_isOpener hstart hc) post
  rw [hstart, List.cons_append] at hspan
  rw [isCutOff, hfrom]
  simp only [hspan, Option.isNone_some, Bool.false_and]

/-- **A strict document in prose is recovered as it stands**, whether the text is whole or still
coming in: an array or a map without blanks behind it, with no opening bracket and no double quote
before it, and with no fence anywhere. -/
theorem recover?_prose {t : Text} (hstrict : isStrict t = true) (hstart : t = c :: s)
    (hopener : Bracket.isOpener c = true) (hend : trimEnd t = t)
    (hpre : ∀ d ∈ pre, Bracket.isOpener d = false ∧ d ≠ '"')
    (hfence : ¬ Fence.mark <:+: pre ++ t ++ post) (done : Bool) :
    recover? (pre ++ t ++ post) done = some t := by
  have htrim : trim t = t := by
    rw [trim, hstart, trimStart_cons (code_of_isOpener hopener).2.2.2, ← hstart, hend]
  obtain ⟨T, rfl⟩ := exists_tree_of_trim hstrict htrim
  have hbrackets : ∀ d ∈ pre, Bracket.isOpener d = false := fun d hd => (hpre d hd).1
  rw [recover?, fencedBlocks_eq_nil hfence]
  rw [List.append_assoc]
  split
  · next hwhole => rw [trim_prose hstart hopener hpre hwhole]
  · obtain ⟨rest, hspans⟩ := Bracket.spans_prose (isContainer_of_isOpener hstart hopener) hbrackets
      hstart hopener post
    simp only [List.find?_nil, isCutOff_prose hstart hopener hbrackets, Bool.and_false,
      Bool.false_eq_true, if_false, hspans, List.find?_cons, hstrict]

/-- A document with brackets and an escaped quote in its strings. -/
def bracketNote : Text := "\x7b\"a\": [\"]\x7d\\\"[\"]\x7d".toList

/-- It is recovered between words and half of another document. -/
theorem recover?_bracketNote :
    isStrict bracketNote = true ∧
      (∀ d ∈ "It's (so far): ".toList, Bracket.isOpener d = false ∧ d ≠ '"') ∧
      ∀ done, recover? ("It's (so far): ".toList ++ bracketNote ++ ", \x7b\"b".toList) done =
        some bracketNote := by
  have hstrict : isStrict bracketNote = true := by decide +kernel
  have hpre : ∀ d ∈ "It's (so far): ".toList, Bracket.isOpener d = false ∧ d ≠ '"' := by
    decide +kernel
  have hend : trimEnd bracketNote = bracketNote := by decide +kernel
  have hfence : ¬ Fence.mark <:+: "It's (so far): ".toList ++ bracketNote ++
      ", \x7b\"b".toList := by
    decide +kernel
  exact ⟨hstrict, hpre, recover?_prose hstrict rfl rfl hend hpre hfence⟩

end ShapedReply
