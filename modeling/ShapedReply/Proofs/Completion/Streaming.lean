import ShapedReply.Loose.Recovery
import ShapedReply.Proofs.Completion.Closing
import ShapedReply.Proofs.Loose.Fragments

/-!
# Recovering a document that is still coming in

While a strict document comes in, recovery is asked about each of its beginnings. A beginning that
ends inside the document is open at its end, so that it is neither strict itself nor searched for
fragments, but completed.

`recover?_of_beginning`: **recovery answers every beginning of a strict document with a truncation
of the document**, and with the document itself, without the blanks around it, once it has come in
to its end.
-/

namespace ShapedReply

open Text Reader Spelling Completion

variable {R : Tree} {q : Text}

/-! ## A document that breaks off is open -/

/-- Where a document breaks off, a bracket is still open. -/
theorem Spelling.Tree.Cut.closers_ne_nil (h : R.Cut q)
    (hsurrogates : R.Every Tree.HasNoSurrogates) :
    (Outline.ofText q).closers ≠ [] := by
  cases h with
  | @empty A cs k inside g hwithin hg =>
    have hpasses := hwithin.passes.append <| (Outline.passes_opener k cs).append <|
      (Outline.counts_blanks fun c hc => inside.blank c (hg.mem hc)).passes _
    obtain ⟨cuts, houtline⟩ := hpasses 0 []
    have hofText : Outline.ofText (A ++ k.opener :: g) = ⟨k.closer :: cs, .code, _, cuts⟩ :=
      houtline
    rw [hofText]
    exact List.cons_ne_nil _ _
  | @entry A cs k before es p hwithin hp hcut =>
    have hfirst : es.first.item.HasNoSurrogates := by
      have := hwithin.every hsurrogates
      rw [Tree.Every] at this
      exact (this.2.first before).self
    obtain ⟨cuts, hopened⟩ := hwithin.ofText_opened before
    rw [ofText_opened_append hopened p]
    rcases cut_outcome hfirst hcut with hblank | ⟨_, _, _, hafter, -, -⟩ | ⟨_, _, hafter, -, -, -⟩
    · rw [Outline.counts_blanks hblank]
      exact List.cons_ne_nil _ _
    · obtain ⟨cuts', houtline⟩ := hafter (k.closer :: cs) _ _
      rw [houtline]
      exact List.cons_ne_nil _ _
    · rw [hafter]
      exact List.cons_ne_nil _ _

/-- A proper beginning of a container has a bracket open at its end. -/
theorem closers_ne_nil_of_beginning (hR : R.isContainer = true)
    (hsurrogates : R.Every Tree.HasNoSurrogates) (hq : q <+: R.text .strict) (hne : q ≠ [])
    (hproper : q ≠ R.text .strict) : (Outline.ofText q).closers ≠ [] :=
  (exists_cut R .root hR hq hne hproper).closers_ne_nil hsurrogates

/-- No bracketed span at its start ends inside a proper beginning of a container. -/
theorem spanLength?_of_beginning (hR : R.isContainer = true)
    (hsurrogates : R.Every Tree.HasNoSurrogates) (hq : q <+: R.text .strict)
    (hproper : q ≠ R.text .strict) : Bracket.spanLength? strictQuotes q = none := by
  rcases hspan : Bracket.spanLength? strictQuotes q with _ | m
  · rfl
  obtain ⟨hpos, hle, hclosers⟩ := Outline.closers_of_closingAt hspan 0 []
  have htake : q.take m <+: R.text .strict := (List.take_prefix m q).trans hq
  have hne : q.take m ≠ [] := by
    intro hnil
    have := congrArg List.length hnil
    rw [List.length_take, List.length_nil] at this
    omega
  have hproper' : q.take m ≠ R.text .strict := by
    intro heq
    have hqle := hq.length_le
    have hlen := congrArg List.length heq
    rw [List.length_take] at hlen
    exact hproper (hq.eq_of_length (by omega))
  exact absurd hclosers (closers_ne_nil_of_beginning hR hsurrogates htake hne hproper')

/-- Blanks hold no opening bracket. -/
theorem isOpener_of_isBlank {c : Char} (hc : isBlank c = true) : Bracket.isOpener c = false := by
  rcases h : Bracket.closerOf? c with _ | k
  · rw [Bracket.isOpener, h]
    rfl
  · unfold Bracket.closerOf? at h
    split at h
    · exact absurd hc (by decide)
    · exact absurd hc (by decide)
    · cases h

/-- The document starts at the first bracket behind the blanks. -/
theorem fromOpener_append {g : Text} (hg : ∀ c ∈ g, isBlank c = true) (k : Container) (t : Text) :
    Bracket.fromOpener (g ++ k.opener :: t) = k.opener :: t := by
  have hopener : Bracket.isOpener k.opener = true := by cases k <;> rfl
  exact Bracket.fromOpener_append_cons (fun c hc => isOpener_of_isBlank (hg c hc)) hopener t

/-- A beginning of a container starts with its opening bracket. -/
theorem exists_opener_of_beginning (hR : R.isContainer = true) (hq : q <+: R.text .strict)
    (hne : q ≠ []) : ∃ (k : Container) (t : Text), q = k.opener :: t := by
  obtain ⟨c, t, rfl⟩ := List.exists_cons_of_ne_nil hne
  cases R with
  | word w => cases hR
  | string s => cases hR
  | empty k inside =>
    rw [Tree.text] at hq
    exact ⟨k, t, by rw [(List.cons_prefix_cons.mp hq).1]⟩
  | filled k es =>
    rw [Tree.text] at hq
    exact ⟨k, t, by rw [(List.cons_prefix_cons.mp hq).1]⟩

/-- A text with an open bracket at its end is not strict, with or without the blanks around it. -/
theorem isStrict_trim_of_closers {g : Text} (hg : ∀ c ∈ g, isBlank c = true) {k : Container}
    {t : Text} (h : (Outline.ofText (k.opener :: t)).closers ≠ []) :
    isStrict (trim (g ++ k.opener :: t)) = false := by
  have hopener : isBlank k.opener = false := by cases k <;> rfl
  have htrim : trim (g ++ k.opener :: t) = trimEnd (k.opener :: t) := by
    rw [trim, trimStart_append hg, trimStart_cons hopener]
  rcases hstrict : isStrict (trim (g ++ k.opener :: t)) with _ | _
  · rfl
  rw [htrim] at hstrict
  obtain ⟨d, hd, -⟩ := exists_document_of_isStrict hstrict
  obtain ⟨blanks, htext, hblanks⟩ := exists_trimEnd_append (k.opener :: t)
  have hclosers : (Outline.ofText (k.opener :: t)).closers = [] := by
    rw [htext, Outline.ofText_append, Outline.closers_after_blanks _ hblanks, ← hd,
      Outline.closers_strict]
  exact absurd hclosers h

/-! ## Recovery -/

/-- What closing tries first is what completion answers. -/
theorem complete_of_closedTo {p r : Text} (hfrom : Bracket.fromOpener p = q) (hne : q ≠ [])
    (hstages : Mend.applyAll stages q = q) (h : ClosedTo q r) : complete p = r := by
  obtain ⟨c, t, rfl⟩ := List.exists_cons_of_ne_nil hne
  unfold complete
  rw [hfrom]
  simp only [hstages]
  rcases h with hclose | ⟨hnone, m, cuts, hcuts, hclose⟩
  · rw [hclose]
  · rw [hnone, hcuts]
    simp only
    rw [List.findSome?_cons, hclose]
    rfl

/-- A proper beginning of a container is recovered by completion. -/
theorem recover?_of_isCutOff {p : Text} (hstrict : isStrict (trim p) = false)
    (hfence : ¬ Fence.mark <:+: p) (hcut : isCutOff p = true) :
    recover? p false = some (complete p) := by
  unfold recover?
  rw [hstrict, fencedBlocks_eq_nil hfence, hcut]
  rfl

/-- **A proper beginning of a container, with blanks before it, is recovered as a truncation.** -/
theorem exists_recover?_of_beginning {g : Text} (hg : ∀ c ∈ g, isBlank c = true)
    (hR : R.isContainer = true) (hkeys : R.Every Tree.HasDistinctKeys)
    (hsurrogates : R.Every Tree.HasNoSurrogates) (hfence : ¬ Fence.mark <:+: g ++ q)
    (hq : q <+: R.text .strict) (hne : q ≠ []) (hproper : q ≠ R.text .strict) :
    ∃ R' : Tree, recover? (g ++ q) false = some (R'.text .strict) ∧ Truncated R q R'.value := by
  obtain ⟨R', hclosed, htruncated⟩ :=
    exists_closed (exists_cut R .root hR hq hne hproper) hkeys hsurrogates
  have hclosers := closers_ne_nil_of_beginning hR hsurrogates hq hne hproper
  have hspan := spanLength?_of_beginning hR hsurrogates hq hproper
  obtain ⟨k, t, rfl⟩ := exists_opener_of_beginning hR hq hne
  have hfrom := fromOpener_append hg k t
  have hopen : (Outline.ofText (k.opener :: t)).isOpen = true := by
    rw [Outline.isOpen, Bool.or_eq_true, Bool.not_eq_true', List.isEmpty_eq_false_iff]
    exact .inl hclosers
  have hcut : isCutOff (g ++ k.opener :: t) = true := by
    unfold isCutOff
    rw [hfrom]
    simp only [hspan, hopen]
    rfl
  refine ⟨R', ?_, htruncated⟩
  rw [recover?_of_isCutOff (isStrict_trim_of_closers hg hclosers) hfence hcut,
    complete_of_closedTo hfrom hne (stages_beginning R hq) hclosed]

/-- Blanks alone are recovered as the empty map. -/
theorem recover?_of_blanks {p : Text} (hp : ∀ c ∈ p, isBlank c = true) :
    recover? p false = some ['{', '}'] := by
  have htrim : trim p = [] := by
    rw [trim, trimStart_blanks hp]
    rfl
  have hfence : ¬ Fence.mark <:+: p := by
    intro hin
    exact absurd (hp _ (hin.mem (by decide : '\x60' ∈ Fence.mark))) (by decide)
  have hopeners : ∀ c ∈ p, Bracket.isOpener c = false := fun c hc => isOpener_of_isBlank (hp c hc)
  have hfrom : Bracket.fromOpener p = [] := by
    rw [Bracket.fromOpener, List.dropWhile_eq_nil_iff]
    intro c hc
    rw [hopeners c hc]
    rfl
  have hcut : isCutOff p = false := by
    unfold isCutOff
    rw [hfrom]
  have hcomplete : complete p = ['{', '}'] := by
    unfold complete
    rw [hfrom]
    rfl
  unfold recover? mendCandidates
  rw [htrim, fencedBlocks_eq_nil hfence, hcut, Bracket.spans_eq_nil hopeners, hcomplete]
  decide

/-- `d.Truncated p v`: of the document `d` only the text `p` has come in, and `v` is what is left of
its value. Before the document starts, this is the empty map. -/
inductive Spelling.Document.Truncated (d : Document) : Text → Value → Prop where
  | waiting {p : Text} : p <+: d.before.strict → d.Truncated p (.map [])
  | started {p : Text} {v : Value} : p ≠ [] → Spelling.Truncated d.root p v →
      d.Truncated (d.before.strict ++ p) v
  | ended {p : Text} : p <+: d.after.strict →
      d.Truncated (d.before.strict ++ (d.root.text .strict ++ p)) d.root.value

/-- Once a document has come in to its end, it is recovered as it is, without the blanks around
it. -/
theorem recover?_of_ended (d : Document) {p : Text} (hp : p <+: d.after.strict) :
    recover? (d.before.strict ++ (d.root.text .strict ++ p)) false =
      some (d.root.text .strict) := by
  have htrim : trim (d.before.strict ++ (d.root.text .strict ++ p)) = d.root.text .strict := by
    rw [← List.append_assoc]
    exact trim_tree d.root (forall_isBlank d.before.blank)
      (forall_isBlank fun c hc => d.after.blank c (hp.mem hc))
  have hstrict : isStrict (d.root.text .strict) = true := by
    rw [isStrict, read_text_alone legible_strict]
  unfold recover?
  rw [htrim, hstrict]
  rfl

/-- **Every beginning of a strict document is recovered as a truncation of the document.** The
document has a container at its top, no repeated keys, no halves of surrogate pairs and no fence.
Once it has come in to its end, the answer is the document itself, without the blanks around it. -/
theorem recover?_of_beginning {t p : Text} (ht : isStrict t = true) (hfence : ¬ Fence.mark <:+: t)
    (hp : p <+: t) : (∃ d : Document, d.strict = t) ∧ ∀ d : Document, d.strict = t →
      d.root.isContainer = true → d.root.Every Tree.HasDistinctKeys →
      d.root.Every Tree.HasNoSurrogates →
      Value.read t = .ok d.root.value ∧ ∃ r v, recover? p false = some r ∧ Value.read r = .ok v ∧
        d.Truncated p v ∧ (d.before.strict ++ d.root.text .strict <+: p → r = trim t) := by
  obtain ⟨d₀, hd₀, -⟩ := exists_document_of_isStrict ht
  refine ⟨⟨d₀, hd₀⟩, ?_⟩
  rintro d rfl hroot hkeys hsurrogates
  have hbefore : ∀ c ∈ d.before.strict, isBlank c = true := forall_isBlank d.before.blank
  have hstart : d.root.text .strict ≠ [] := by
    obtain ⟨c, s, hcons, -⟩ := legible_strict.exists_cons d.root
    rw [hcons]
    exact List.cons_ne_nil c s
  have hpfence : ¬ Fence.mark <:+: p := fun hin => hfence (hin.trans hp.isInfix)
  refine ⟨read_strict d, ?_⟩
  rw [Document.strict, List.append_assoc] at hp
  rcases proper_or_behind_of_prefix_append hp with ⟨hwaiting, -⟩ | ⟨q, rfl, hq⟩
  · refine ⟨_, _, recover?_of_blanks fun c hc => hbefore c (hwaiting.mem hc), rfl,
      .waiting hwaiting, ?_⟩
    intro hend
    have hle := (hend.trans hwaiting).length_le
    rw [List.length_append] at hle
    exact absurd (List.length_eq_zero_iff.mp (by omega)) hstart
  rcases proper_or_behind_of_prefix_append hq with ⟨hroot', hproper⟩ | ⟨g, rfl, hg⟩
  · have hshort : ¬ d.before.strict ++ d.root.text .strict <+: d.before.strict ++ q := by
      intro hend
      have := (List.prefix_append_right_inj _).mp hend
      exact hproper (hroot'.eq_of_length (Nat.le_antisymm hroot'.length_le this.length_le))
    by_cases hne : q = []
    · subst hne
      rw [List.append_nil] at hshort ⊢
      exact ⟨_, _, recover?_of_blanks hbefore, rfl, .waiting List.prefix_rfl,
        fun hend => absurd hend hshort⟩
    · obtain ⟨R', hrecover, htruncated⟩ :=
        exists_recover?_of_beginning hbefore hroot hkeys hsurrogates hpfence hroot' hne hproper
      exact ⟨_, _, hrecover, read_text_alone legible_strict R', .started hne htruncated,
        fun hend => absurd hend hshort⟩
  · refine ⟨_, _, recover?_of_ended d hg, read_text_alone legible_strict d.root, .ended hg, ?_⟩
    intro _
    exact (trim_strict d).symm

/-! What `streamedNote` has to know about its blanks and its escape. -/

/-- A space is a blank of strict text. -/
theorem blank_space : ∀ c ∈ [' '], isValueBlank c = true := by decide

/-- The escape of a line break. -/
theorem simpleEscape?_n : Reader.simpleEscape? 'n' = some '\n' := rfl

/-- A document with brackets and commas in a string, for a text that breaks off in an escape. -/
def streamedNote : Document where
  before := ⟨[' '], blank_space, []⟩
  root := .filled .map <|
    .more (.member .tight ⟨⟨[(.plain 'd' (by decide), false)], false⟩, none, by simp⟩ .tight
        ⟨[' '], blank_space, []⟩)
      (.filled .array <|
        .more (.item .tight) (.word (.number ['1', '0'] (.int 10) rfl)) .tight <|
        .last (.item ⟨[' '], blank_space, []⟩)
          (.filled .map <|
            .last (.member .tight ⟨⟨[(.plain 'e' (by decide), false)], false⟩, none, by simp⟩ .tight
                ⟨[' '], blank_space, []⟩)
              (.string ⟨[(.plain ']' (by decide), false), (.escape 'n' '\n' simpleEscape?_n, false),
                (.plain ',' (by decide), false)], false⟩)
              .tight none)
          .tight none)
      .tight <|
    .last (.member ⟨[' '], blank_space, []⟩
      ⟨⟨[(.plain 'f' (by decide), false)], false⟩, none, by simp⟩
        .tight ⟨[' '], blank_space, []⟩)
      (.word (.number ['-', '7'] (.int (-7)) rfl)) .tight none
  after := .tight
  remark := none
  oneLine := by simp

/-- A text that breaks off in an escape, inside a map inside an array inside a map. -/
theorem recover?_streamedNote :
    (isStrict " \x7b\"d\": [10, \x7b\"e\": \"]\\n,\"\x7d], \"f\": -7\x7d".toList = true ∧
      ¬ Fence.mark <:+: " \x7b\"d\": [10, \x7b\"e\": \"]\\n,\"\x7d], \"f\": -7\x7d".toList ∧
      streamedNote.strict = " \x7b\"d\": [10, \x7b\"e\": \"]\\n,\"\x7d], \"f\": -7\x7d".toList) ∧
    ∃ r v, recover? " \x7b\"d\": [10, \x7b\"e\": \"]\\".toList false = some r ∧
      Value.read r = .ok v ∧
      streamedNote.Truncated " \x7b\"d\": [10, \x7b\"e\": \"]\\".toList v := by
  have hnote : streamedNote.strict =
      " \x7b\"d\": [10, \x7b\"e\": \"]\\n,\"\x7d], \"f\": -7\x7d".toList := by
    decide
  have hstrict : isStrict " \x7b\"d\": [10, \x7b\"e\": \"]\\n,\"\x7d], \"f\": -7\x7d".toList =
      true := by
    rw [← hnote, isStrict, read_strict]
  have hfence : ¬ Fence.mark <:+:
      " \x7b\"d\": [10, \x7b\"e\": \"]\\n,\"\x7d], \"f\": -7\x7d".toList := by
    intro hin
    exact absurd (hin.mem (by decide : '\x60' ∈ Fence.mark)) (by decide)
  have hbeginning : " \x7b\"d\": [10, \x7b\"e\": \"]\\".toList <+:
      " \x7b\"d\": [10, \x7b\"e\": \"]\\n,\"\x7d], \"f\": -7\x7d".toList := by
    decide
  have hkeys : streamedNote.root.Every Tree.HasDistinctKeys := by
    simp [streamedNote, Tree.Every, Entries.Every, Tree.HasDistinctKeys, Entries.pairs, Head.name,
      Quoted.meaning, Quoted.codeUnits, Glyph.codeUnit]
    decide
  have hsurrogates : streamedNote.root.Every Tree.HasNoSurrogates := by
    simp [streamedNote, Tree.Every, Entries.Every, Tree.HasNoSurrogates, Glyph.isSurrogate]
  refine ⟨⟨hstrict, hfence, hnote⟩, ?_⟩
  obtain ⟨-, r, v, hrecover, hread, htruncated, -⟩ :=
    (recover?_of_beginning hstrict hfence hbeginning).2 streamedNote hnote rfl hkeys hsurrogates
  exact ⟨r, v, hrecover, hread, htruncated⟩

/-- The blanks behind a whole document are not part of the answer, and blanks before an array are
answered with a map. -/
theorem recover?_around_blanks :
    isStrict ['[', ']', ' '] = true ∧ recover? ['[', ']', ' '] false ≠ some ['[', ']', ' '] ∧
    isStrict [' ', '[', ']'] = true ∧ recover? [' '] false = some ['{', '}'] := by
  decide

end ShapedReply
