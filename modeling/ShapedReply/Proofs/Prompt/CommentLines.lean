import Mathlib.Data.List.Basic
import ShapedReply.Text.Lines

/-!
# Texts with comment lines

A text is annotated by putting comment lines between its lines. `Annotates t u` says that the text
`t` is `u` with comment lines put in, none of which stands first or last. So texts that are
annotated can be put in a row (`Annotates.append`) and below each other (`AnnotatesLines.joinWith`),
as a renderer puts them, and **taking the comment lines out of `t` gives `u`**
(`Annotates.withoutCommentLines_eq`).

A line is plain if it starts no comment, however it goes on: its first character that is no space is
no slash.
-/

namespace ShapedReply.Prompt

open Text

/-! ## Comment lines -/

/-- Whether the first characters of a line that are no spaces are two slashes. -/
def isCommentLine (line : Text) : Bool :=
  ['/', '/'].isPrefixOf (line.dropWhile (· == ' '))

/-- A text without its comment lines. -/
def withoutCommentLines (t : Text) : Text :=
  ['\n'].intercalate ((t.splitOn '\n').filter fun line => !isCommentLine line)

/-- Whether a text is on one line, and its first character that is no space is no slash. -/
def isPlain (t : Text) : Bool :=
  !t.contains '\n' && (t.dropWhile (· == ' ')).head? != some '/'

section plain

variable {t u : Text}

/-- A plain line has no line feed, and its first character other than a space is no slash. -/
theorem isPlain_iff : isPlain t = true ↔ '\n' ∉ t ∧ (t.dropWhile (· == ' ')).head? ≠ some '/' := by
  simp [isPlain]

/-- A plain line has no line feed. -/
theorem not_mem_of_isPlain (h : isPlain t = true) : '\n' ∉ t :=
  (isPlain_iff.mp h).1

/-- A plain line is no comment line. -/
theorem isCommentLine_of_isPlain (h : isPlain t = true) : isCommentLine t = false := by
  have hstart := (isPlain_iff.mp h).2
  unfold isCommentLine
  rcases ht : t.dropWhile (· == ' ') with _ | ⟨c, r⟩
  · rfl
  · rw [ht, List.head?_cons] at hstart
    have hc : c ≠ '/' := fun hc => hstart (congrArg some hc)
    simp [List.isPrefixOf, hc.symm]

/-- Plain texts in a row are plain: the second one starts where the first one has only spaces. -/
theorem isPlain_append (ht : isPlain t = true) (hu : isPlain u = true) :
    isPlain (t ++ u) = true := by
  rw [isPlain_iff] at ht hu ⊢
  refine ⟨by simp [ht.1, hu.1], ?_⟩
  rw [List.dropWhile_append]
  split
  · exact hu.2
  · next hne =>
    rw [List.head?_append_of_ne_nil _ (by simpa using hne)]
    exact ht.2

/-- A line is plain if it starts with neither a space nor a slash. -/
theorem isPlain_cons {c : Char} {r : Text} (hc : c ≠ ' ' ∧ c ≠ '/' ∧ c ≠ '\n') (hr : '\n' ∉ r) :
    isPlain (c :: r) = true := by
  rw [isPlain_iff, List.dropWhile_cons_of_neg (by simp [hc.1])]
  simp [hc.2.1, hr, hc.2.2.symm]

end plain

/-- `Annotates t u`: the text `t` is `u` with comment lines put in, all of them behind a line and
before one. -/
inductive Annotates : Text → Text → Prop where
  | line {l : Text} : isPlain l = true → Annotates l l
  | next {l t u : Text} : isPlain l = true → Annotates t u →
    Annotates (l ++ '\n' :: t) (l ++ '\n' :: u)
  | comment {l m t u : Text} : isPlain l = true → '\n' ∉ m → isCommentLine m = true →
      Annotates (l ++ '\n' :: t) (l ++ '\n' :: u) →
      Annotates (l ++ '\n' :: (m ++ '\n' :: t)) (l ++ '\n' :: u)

namespace Annotates

variable {t u t' u' : Text}

/-- The lines of a text, without the comment lines, are the lines that they were put between. -/
theorem filter_splitOn (h : Annotates t u) :
    ((t.splitOn '\n').filter fun line => !isCommentLine line) = u.splitOn '\n' := by
  induction h with
  | @line l hl =>
    rw [List.splitOn_eq_singleton (not_mem_of_isPlain hl)]
    simp [isCommentLine_of_isPlain hl]
  | @next l t u hl _ ih =>
    rw [List.splitOn_append_cons_self_of_not_mem (not_mem_of_isPlain hl),
      List.splitOn_append_cons_self_of_not_mem (not_mem_of_isPlain hl), List.filter_cons_of_pos
      (by simp [isCommentLine_of_isPlain hl]), ih]
  | @comment l m t u hl hm hcomment _ ih =>
    rw [List.splitOn_append_cons_self_of_not_mem (not_mem_of_isPlain hl)] at ih
    rw [List.splitOn_append_cons_self_of_not_mem (not_mem_of_isPlain hl),
      List.splitOn_append_cons_self_of_not_mem hm, List.filter_cons_of_pos
      (by simp [isCommentLine_of_isPlain hl]), List.filter_cons_of_neg (by simp [hcomment]), ← ih,
      List.filter_cons_of_pos (by simp [isCommentLine_of_isPlain hl])]

/-- **What is left without the comment lines is the text that they were put into.** -/
theorem withoutCommentLines_eq (h : Annotates t u) : withoutCommentLines t = u := by
  rw [withoutCommentLines, h.filter_splitOn, List.intercalate_splitOn]

/-- A plain text may stand in front. -/
theorem prepend {l : Text} (hl : isPlain l = true) (h : Annotates t u) :
    Annotates (l ++ t) (l ++ u) := by
  induction h with
  | line hl' => exact .line (isPlain_append hl hl')
  | next hl' h _ =>
    rw [← List.append_assoc, ← List.append_assoc]
    exact .next (isPlain_append hl hl') h
  | comment hl' hm hcomment _ ih =>
    rw [← List.append_assoc, ← List.append_assoc] at ih ⊢
    exact .comment (isPlain_append hl hl') hm hcomment ih

/-- Annotated texts may stand in a row. -/
theorem append (h : Annotates t u) (h' : Annotates t' u') : Annotates (t ++ t') (u ++ u') := by
  induction h with
  | line hl => exact h'.prepend hl
  | @next l t u hl _ ih =>
    rw [List.append_assoc, List.append_assoc]
    exact .next hl ih
  | @comment l m t u hl hm hcomment _ ih =>
    rw [List.append_assoc, List.append_assoc] at ih ⊢
    simp only [List.cons_append, List.append_assoc] at ih ⊢
    exact .comment hl hm hcomment ih

end Annotates

/-! ## Strings in a row and below each other -/

/-- Annotated texts may stand in a row. -/
theorem annotates_append {t u t' u' : String} (h : Annotates t.toList u.toList)
    (h' : Annotates t'.toList u'.toList) : Annotates (t ++ t').toList (u ++ u').toList := by
  rw [String.toList_append, String.toList_append]
  exact h.append h'

/-- Annotated texts may stand in a row with a plain text between them. -/
theorem annotates_joinWith {α : Type} {separator : String}
    (hseparator : isPlain separator.toList = true)
    {f g : α → String} {xs : List α} (h : ∀ x ∈ xs, Annotates (f x).toList (g x).toList) :
    Annotates (joinWith separator (xs.map f)).toList (joinWith separator (xs.map g)).toList := by
  induction xs with
  | nil => exact .line rfl
  | cons x xs ih =>
    rw [List.forall_mem_cons] at h
    cases xs with
    | nil => exact h.1
    | cons y xs => exact annotates_append (annotates_append h.1 (.line hseparator)) (ih h.2)

/-- Lines below each other, some of which are comment lines. -/
inductive AnnotatesLines : List String → List String → Prop where
  | nil : AnnotatesLines [] []
  | text {t u : String} {ls ms : List String} : Annotates t.toList u.toList → AnnotatesLines ls ms →
      AnnotatesLines (t :: ls) (u :: ms)
  | comment {l : String} {ls ms : List String} : '\n' ∉ l.toList → isCommentLine l.toList = true →
      AnnotatesLines ls ms → AnnotatesLines (l :: ls) ms

/-- Comment lines may stand between lines of two lists as in each of them. -/
theorem AnnotatesLines.append {ls ms ls' ms' : List String} (h : AnnotatesLines ls ms)
    (h' : AnnotatesLines ls' ms') : AnnotatesLines (ls ++ ls') (ms ++ ms') := by
  induction h with
  | nil => exact h'
  | text ht _ ih => exact .text ht ih
  | comment hl hcomment _ ih => exact .comment hl hcomment ih

/-- Lines between an opening and a closing one. -/
theorem AnnotatesLines.joinWith {ls ms : List String} (h : AnnotatesLines ls ms)
    {start finish : String} (hstart : isPlain start.toList = true)
    (hfinish : isPlain finish.toList = true) :
    Annotates (joinWith "\n" ([start] ++ ls ++ [finish])).toList
      (joinWith "\n" ([start] ++ ms ++ [finish])).toList := by
  have hcons : ∀ (t : String) (ls : List String),
    (Text.joinWith "\n" (t :: (ls ++ [finish]))).toList =
      t.toList ++ '\n' :: (Text.joinWith "\n" (ls ++ [finish])).toList := by
    intro t ls
    have hjoin : Text.joinWith "\n" (t :: (ls ++ [finish])) =
        t ++ "\n" ++ Text.joinWith "\n" (ls ++ [finish]) := by
      cases ls <;> rfl
    rw [hjoin, String.toList_append, String.toList_append, List.append_assoc]
    rfl
  -- what stands below the opening line, with the feed before it
  have hbelow : Annotates ([] ++ '\n' :: (Text.joinWith "\n" (ls ++ [finish])).toList)
      ([] ++ '\n' :: (Text.joinWith "\n" (ms ++ [finish])).toList) := by
    induction h with
    | nil => exact .next rfl (.line hfinish)
    | text ht _ ih =>
      rw [List.cons_append, List.cons_append, hcons, hcons]
      exact .next rfl (ht.append ih)
    | comment hl hcomment _ ih =>
      rw [List.cons_append, hcons]
      exact .comment rfl hl hcomment ih
  rw [List.append_assoc, List.append_assoc, List.singleton_append, List.singleton_append, hcons,
    hcons]
  exact hbelow.prepend hstart

end ShapedReply.Prompt
