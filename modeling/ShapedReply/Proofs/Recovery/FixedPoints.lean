import ShapedReply.Proofs.Loose.Fragments
import ShapedReply.Proofs.Loose.Scanning
import ShapedReply.Proofs.Text.Trim
import ShapedReply.Reply

/-!
# What is recovered is recovered again

Recovery has six ways to answer. `Origin` lists them once, each with what it checked, and everything
about answers is read off that list.

* `isStrict_of_recover?`: **what is recovered is strict**, whichever way it was found.
* `trim_of_recover?`: **what is recovered from a whole text has no blanks around it**: blocks and
  mended texts are trimmed, and a span has a bracket at either end. A strict text without blanks
  around it is the first thing that recovery looks for, so it is recovered from itself.
* `head?_complete`: **completion keeps the first opening bracket.** No stage moves it, since it is
  code and no comma, and closing only touches the end of a text.
* `recover?_sound` puts these together.
-/

namespace ShapedReply

open Text

/-! ## Strict answers -/

namespace Completion

/-- An empty container is strict. -/
theorem isStrict_emptyLike (t : Text) : isStrict (emptyLike t) = true := by
  unfold emptyLike
  split
  · decide
  · decide

/-- The ways in which completion answers for a text that opens a bracket: with the mended text
closed where it stands, closed where it was cut back, or with the empty document of its bracket. -/
inductive Completes (body : Text) : Text → Prop where
  | closed {r : Text} : close? body = some r → Completes body r
  | cut {r : Text} (n : Nat) : close? (body.take n) = some r → Completes body r
  | empty : Completes body (emptyLike body)

end Completion

open Completion

/-- Completion works on the text from its first bracket on, after the stages. -/
theorem completes_complete {t opened : Text} (hfrom : Bracket.fromOpener t = opened)
    (hne : opened ≠ []) :
    Completes (Mend.applyAll stages opened) (complete t) := by
  obtain ⟨c, r, rfl⟩ := List.exists_cons_of_ne_nil hne
  unfold complete
  rw [hfrom]
  simp only
  generalize Mend.applyAll stages (c :: r) = body
  split
  · next closed hclosed => exact .closed hclosed
  · rcases hcuts : (Outline.ofText body).cuts.findSome? fun n => close? (body.take n) with
      _ | closed
    · exact .empty
    · obtain ⟨n, -, hn⟩ := List.exists_of_findSome?_eq_some hcuts
      exact .cut n hn

/-- Without an opening bracket there is nothing to complete. -/
theorem complete_of_no_opener {t : Text} (h : Bracket.fromOpener t = []) :
    complete t = emptyLike [] := by
  unfold complete
  rw [h]

/-- A completed document is strict. -/
theorem isStrict_complete (t : Text) : isStrict (complete t) = true := by
  rcases hfrom : Bracket.fromOpener t with _ | ⟨c, r⟩
  · rw [complete_of_no_opener hfrom]
    exact isStrict_emptyLike []
  · have := completes_complete hfrom (List.cons_ne_nil c r)
    generalize complete t = answer at this
    cases this with
    | closed h => exact (close?_eq_some_iff.mp h).2
    | cut n h => exact (close?_eq_some_iff.mp h).2
    | empty => exact isStrict_emptyLike _

/-- `Origin t done f`: where recovery found the document `f` in the text `t`. -/
inductive Origin (t : Text) (done : Bool) : Text → Prop where
  | whole : isStrict (trim t) = true → Origin t done (trim t)
  | block {f : Text} : f ∈ fencedBlocks t → isStrict f = true → Origin t done f
  | span {f : Text} : f ∈ Bracket.spans strictQuotes t → isStrict f = true → Origin t done f
  | mended {f : Text} (candidate : Text) : mend? candidate = some f → Origin t done f
  | completed : done = false → Origin t done (complete t)

/-- **What is recovered was found in one of the ways of recovery.** -/
theorem origin_of_recover? {t f : Text} {done : Bool} (h : recover? t done = some f) :
    Origin t done f := by
  unfold recover? at h
  split at h
  · next hstrict =>
    cases h
    exact .whole hstrict
  · split at h
    · next block hblock =>
      cases h
      exact .block (List.mem_of_find?_eq_some hblock) (List.find?_some hblock)
    · split at h
      · next hcut =>
        cases h
        rw [Bool.and_eq_true, Bool.not_eq_true'] at hcut
        exact .completed hcut.1
      · split at h
        · next span hspan =>
          cases h
          exact .span (List.mem_of_find?_eq_some hspan) (List.find?_some hspan)
        · split at h
          · next mended hmended =>
            cases h
            obtain ⟨candidate, -, hcandidate⟩ := List.exists_of_findSome?_eq_some hmended
            exact .mended candidate hcandidate
          · split at h
            · cases h
            · next hdone =>
              cases h
              exact .completed (Bool.eq_false_iff.mpr hdone)

/-- **What is recovered from a text is strict**, whichever way it was found. -/
theorem isStrict_of_recover? {t f : Text} {done : Bool} (h : recover? t done = some f) :
    isStrict f = true := by
  cases origin_of_recover? h with
  | whole hstrict => exact hstrict
  | block _ hstrict => exact hstrict
  | span _ hstrict => exact hstrict
  | mended _ hmend => exact (mend?_eq_some_iff.mp hmend).2
  | completed _ => exact isStrict_complete t

/-- While a text is still coming in, there is always an answer. -/
theorem exists_recover?_of_not_done (t : Text) : ∃ f, recover? t false = some f := by
  unfold recover?
  split
  · exact ⟨_, rfl⟩
  · split
    · exact ⟨_, rfl⟩
    · split
      · exact ⟨_, rfl⟩
      · split
        · exact ⟨_, rfl⟩
        · split
          · exact ⟨_, rfl⟩
          · exact ⟨_, rfl⟩

/-! ## Answers without blanks around them -/

/-- A bracket is no blank. -/
theorem isBlank_of_bracket {c : Char} (h : Bracket.isOpener c = true ∨ Bracket.isCloser c = true) :
    isBlank c = false := by
  rcases h with h | h
  · unfold Bracket.isOpener Bracket.closerOf? at h
    split at h
    · rfl
    · rfl
    · cases h
  · simp only [Bracket.isCloser, Bool.or_eq_true, beq_iff_eq] at h
    rcases h with rfl | rfl <;> rfl

/-- A bracketed span has no blanks around it. -/
theorem trim_of_mem_spans {quotes : List Char} {t s : Text} (h : s ∈ Bracket.spans quotes t) :
    trim s = s := by
  obtain ⟨⟨c, r, hstart, hc⟩, r', k, hend, hk⟩ := Bracket.mem_spans h
  have hnil : ∀ c ∈ ([] : Text), isBlank c = true := List.forall_mem_nil _
  have := trim_append hnil hnil hstart (isBlank_of_bracket (.inl hc)) hend
    (isBlank_of_bracket (.inr hk))
  rwa [List.nil_append, List.append_nil] at this

/-- **What is recovered from a whole text has no blanks around it.** -/
theorem trim_of_recover? {t f : Text} (h : recover? t true = some f) : trim f = f := by
  cases origin_of_recover? h with
  | whole _ => exact trim_trim t
  | block hblock _ =>
    obtain ⟨_, body, rfl, -⟩ := mem_fencedBlocks hblock
    exact trim_trim body
  | span hspan _ => exact trim_of_mem_spans hspan
  | mended candidate hmend =>
    rw [← (mend?_eq_some_iff.mp hmend).1, trim_trim]
  | completed hdone => cases hdone

/-- A strict text without blanks around it is recovered from itself. -/
theorem recover?_of_isStrict {s : Text} (hstrict : isStrict s = true) (htrim : trim s = s)
    (done : Bool) : recover? s done = some s := by
  rw [recover?, htrim]
  exact if_pos hstrict

/-! ## The first bracket -/

/-- An opening bracket is code that starts no comment, and it is neither a comma nor a blank. -/
theorem code_of_isOpener {c : Char} (h : Bracket.isOpener c = true) :
    isCode c = true ∧ c ≠ '/' ∧ c ≠ ',' ∧ isBlank c = false := by
  unfold Bracket.isOpener Bracket.closerOf? at h
  split at h
  · decide
  · decide
  · cases h

/-- `KeepsOpener F`: an opening bracket at the start of a text also starts what `F` makes of the
text. -/
def KeepsOpener (F : Text → Text) : Prop :=
  ∀ c r, Bracket.isOpener c = true → ∃ r', F (c :: r) = c :: r'

/-- Stages keep an opening bracket at the front. -/
theorem keepsOpener_apply (stage : Mend.Stage) : KeepsOpener stage.apply := by
  intro c r hc
  obtain ⟨hcode, hslash, hcomma, -⟩ := code_of_isOpener hc
  cases stage with
  | comments => exact ⟨_, Mend.stripFrom_cons hcode hslash r⟩
  | trailingCommas =>
    refine ⟨_, (Mend.dropTrailingCommas_cons hcode r).trans (if_neg ?_)⟩
    simp [hcomma]
  | bareKeys =>
    exact ⟨_, (Mend.quoteKeys_eq (c :: r)).trans (Mend.quoteKeysIn_elsewhere_cons hcode r)⟩
  | singleQuotes => exact ⟨_, Mend.requote_cons hcode r⟩
  | controlCharacters => exact ⟨_, Mend.escapeControls_cons hcode r⟩

/-- All stages in a row keep the bracket. -/
theorem keepsOpener_applyAll (stages : List Mend.Stage) : KeepsOpener (Mend.applyAll stages) := by
  intro c r hc
  induction stages generalizing r with
  | nil => exact ⟨r, rfl⟩
  | cons stage stages ih =>
    obtain ⟨r', hr'⟩ := keepsOpener_apply stage c r hc
    have hstep : Mend.applyAll (stage :: stages) (c :: r) =
        Mend.applyAll stages (stage.apply (c :: r)) := rfl
    rw [hstep, hr']
    exact ih r'

/-- Closing a string touches the end of a text only. -/
theorem exists_closeString_eq_cons {c : Char} (hc : Bracket.isOpener c = true) (r : Text) :
    ∃ r', closeString (Outline.ofText (c :: r)) (c :: r) = c :: r' := by
  unfold closeString
  split
  · exact ⟨r, rfl⟩
  · next q _ => exact ⟨r ++ [q], rfl⟩
  · next q hplace =>
    -- a single bracket leaves no literal open
    cases r with
    | nil =>
      unfold Bracket.isOpener Bracket.closerOf? at hc
      split at hc
      · cases hplace
      · cases hplace
      · cases hc
    | cons d r => exact ⟨(d :: r).dropLast ++ [q], rfl⟩

/-- Settling the end keeps an opening bracket at the front. -/
theorem keepsOpener_settleEnd : KeepsOpener settleEnd := by
  intro c r hc
  unfold settleEnd
  split
  · next hlast =>
    cases r with
    | nil =>
      cases hlast
      cases hc
    | cons d r => exact ⟨(d :: r).dropLast, rfl⟩
  · exact ⟨_, rfl⟩
  · exact ⟨_, rfl⟩

/-- A closed text starts with the bracket of the text. -/
theorem exists_close?_eq_cons {c : Char} (hc : Bracket.isOpener c = true) {r closed : Text}
    (h : close? (c :: r) = some closed) : ∃ r', closed = c :: r' := by
  obtain ⟨r₁, h₁⟩ := exists_closeString_eq_cons hc r
  have h₂ : trimEnd (c :: r₁) = c :: trimEnd r₁ := trimEnd_append (code_of_isOpener hc).2.2.2 [] r₁
  obtain ⟨r₃, h₃⟩ := keepsOpener_settleEnd c (trimEnd r₁) hc
  rw [← (close?_eq_some_iff.mp h).1, h₁, h₂, h₃, List.cons_append]
  exact keepsOpener_apply .trailingCommas c _ hc

/-- An empty text cannot be closed. -/
theorem close?_nil : close? [] = none := by decide

/-- **A completed document starts with the first opening bracket of the text**, or with a brace if
there is none. -/
theorem head?_complete (t : Text) :
    (complete t).head? = some ((t.find? Bracket.isOpener).getD '{') := by
  have hfind : t.find? Bracket.isOpener = (Bracket.fromOpener t).head? :=
    List.find?_eq_head?_dropWhile_not Bracket.isOpener t
  rcases hfrom : Bracket.fromOpener t with _ | ⟨c, r⟩
  · rw [complete_of_no_opener hfrom, hfind, hfrom]
    rfl
  · have hc : Bracket.isOpener c = true := by
      rw [hfrom] at hfind
      exact List.find?_some hfind
    rw [hfind, hfrom]
    obtain ⟨body, hbody⟩ := keepsOpener_applyAll stages c r hc
    have hcompletes := completes_complete hfrom (List.cons_ne_nil c r)
    rw [hbody] at hcompletes
    generalize complete t = answer at hcompletes
    cases hcompletes with
    | closed h =>
      obtain ⟨r', rfl⟩ := exists_close?_eq_cons hc h
      rfl
    | cut n h =>
      cases n with
      | zero =>
        rw [List.take_zero, close?_nil] at h
        cases h
      | succ n =>
        rw [List.take_succ_cons] at h
        obtain ⟨r', rfl⟩ := exists_close?_eq_cons hc h
        rfl
    | empty =>
      unfold Bracket.isOpener Bracket.closerOf? at hc
      split at hc
      · rfl
      · rfl
      · cases hc

/-! ## Recovery -/

/-- **Recovery is sound, and its answers are fixed.** From a whole text it either recovers nothing,
and then a reply is refused with the beginning of the text that the settings ask for, or it recovers
a strict text without blanks around it, which is recovered from itself, whole or still coming in.
From a text that is still coming in it always recovers a strict text. Completion always gives a
strict text, which starts with the first opening bracket, or with a brace if there is none. -/
theorem recover?_sound (settings : Settings) (t : Text) :
    ((recover? t true = none ∧ Reply.foundValue settings t true =
        .error (.nothingFound (preview settings.errorPreviewChars t))) ∨
      ∃ s, recover? t true = some s ∧ isStrict s = true ∧ trim s = s ∧
        ∀ done, recover? s done = some s) ∧
    (∃ s, recover? t false = some s ∧ isStrict s = true) ∧
    isStrict (complete t) = true ∧
    (complete t).head? = some ((t.find? Bracket.isOpener).getD '{') := by
  refine ⟨?_, ?_, isStrict_complete t, head?_complete t⟩
  · rcases hrecover : recover? t true with _ | s
    · left
      refine ⟨rfl, ?_⟩
      rw [Reply.foundValue, hrecover]
    · right
      have hstrict := isStrict_of_recover? hrecover
      have htrim := trim_of_recover? hrecover
      exact ⟨s, rfl, hstrict, htrim, recover?_of_isStrict hstrict htrim⟩
  · obtain ⟨s, hs⟩ := exists_recover?_of_not_done t
    exact ⟨s, hs, isStrict_of_recover? hs⟩

end ShapedReply
