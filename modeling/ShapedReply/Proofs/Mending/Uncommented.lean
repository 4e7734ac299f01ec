import ShapedReply.Proofs.Mending.Comments

/-!
# Texts without comments

Stripping a comment joins what stood before it and behind it. No mark can arise at such a joint: a
slash before a comment would have made a comment with the slash that starts it, and a line comment
leaves its line feed. So what is left of a text is left as it is when it is stripped again
(`Strips.stripped`), and no mark that starts a comment stands in its code (`Strips.codeUnmarked`).

Which literals a text has is said apart from stripping. `Holds` reads a text from left to right,
past code, literals and comments, and collects the literals; a quote in a comment opens none, and a
mark in a literal starts no comment. **The literals that a scan finds in what is left of a text are
those that the text holds** (`Strips.holds`, `Holds.exists_strips`).
-/

namespace ShapedReply

open Text Mend Chunk

/-- `Holds t ls`: read from left to right, past comments as they are met, the text `t` holds the
literals `ls`. -/
inductive Holds : Text → List Chunk → Prop where
  | nil : Holds [] []
  | code {c : Char} {r : Text} {ls : List Chunk} : isCode c = true → ¬ ['/', '/'] <+: c :: r →
      ¬ ['/', '*'] <+: c :: r → Holds r ls → Holds (c :: r) ls
  | line {body r : Text} {ls : List Chunk} : '\n' ∉ body → Holds r ls →
      Holds ('/' :: '/' :: (body ++ '\n' :: r)) ls
  | lineEnd {body : Text} : '\n' ∉ body → Holds ('/' :: '/' :: body) []
  | block {body r : Text} {ls : List Chunk} : ¬ ['*', '/'] <:+: body → Holds r ls →
      Holds ('/' :: '*' :: (body ++ '*' :: '/' :: r)) ls
  | blockEnd {body : Text} : ¬ ['*', '/'] <:+: body → Holds ('/' :: '*' :: body) []
  | literal {q : Char} {body r : Text} {ls : List Chunk} : isCode q = false → Sealed q body →
      Holds r ls → Holds (q :: (body ++ q :: r)) (.literal q body true :: ls)
  | unclosed {q : Char} {w : Text} : isCode q = false → Unclosed q w →
      Holds (q :: w) [.literal q w false]

namespace Chunk

/-- Whether a chunk is a literal. -/
def isLiteral : Chunk → Bool
  | .code _ => false
  | .literal .. => true

/-- The literals of a text. -/
def literals (t : Text) : List Chunk :=
  (split t).filter isLiteral

/-- Past a character of code. -/
theorem literals_cons {c : Char} (hc : isCode c = true) (r : Text) :
    literals (c :: r) = literals r := by
  unfold literals
  rw [split_cons hc]
  rcases split r with _ | ⟨_ | _, _⟩ <;> rfl

/-- Past a literal. -/
theorem literals_literal {q : Char} (hq : isCode q = false) {body : Text} (h : Sealed q body)
    (r : Text) :
    literals (q :: (body ++ q :: r)) = .literal q body true :: literals r := by
  unfold literals
  rw [split_literal hq h]
  rfl

/-- A literal in which the text breaks off. -/
theorem literals_unclosed {q : Char} (hq : isCode q = false) {w : Text} (h : Unclosed q w) :
    literals (q :: w) = [.literal q w false] := by
  unfold literals
  rw [split_unclosed hq h]
  rfl

/-- A chunk of code is the code in front, with the new character, or it was there before. -/
theorem code_mem_consCode {c : Char} {cs : List Chunk} {t : Text} (h : .code t ∈ consCode c cs) :
    t = c :: lead cs ∨ .code t ∈ cs := by
  rcases cs with _ | ⟨u | _, cs⟩
  · exact .inl (by simpa [consCode, lead] using h)
  · rcases List.mem_cons.mp h with heq | hmem
    · exact .inl (Chunk.code.inj heq)
    · exact .inr (List.mem_cons_of_mem _ hmem)
  · rcases List.mem_cons.mp h with heq | hmem
    · exact .inl (Chunk.code.inj heq)
    · exact .inr hmem

end Chunk

/-! ## No mark arises -/

/-- No mark that starts a comment stands in a text. -/
def Unmarked (t : Text) : Prop :=
  ¬ ['/', '/'] <:+: t ∧ ¬ ['/', '*'] <:+: t

/-- No mark starts where a character is no slash, or where no slash and no asterisk comes next. -/
theorem Unmarked.cons {c : Char} {t : Text} (h : Unmarked t)
    (hc : c = '/' → ∀ d ∈ t.head?, d ≠ '/' ∧ d ≠ '*') : Unmarked (c :: t) := by
  have hnot : ∀ e, e = '/' ∨ e = '*' → ¬ ['/', e] <+: c :: t := by
    rintro e he hstart
    obtain ⟨rfl, hnext⟩ := List.cons_prefix_cons.mp hstart
    obtain ⟨hslash, hstar⟩ := hc rfl e (by
      obtain ⟨r, rfl⟩ := hnext
      rfl)
    rcases he with rfl | rfl
    · exact hslash rfl
    · exact hstar rfl
  constructor
  · intro hin
    rcases List.infix_cons_iff.mp hin with hstart | hin
    · exact hnot '/' (.inl rfl) hstart
    · exact h.1 hin
  · intro hin
    rcases List.infix_cons_iff.mp hin with hstart | hin
    · exact hnot '*' (.inr rfl) hstart
    · exact h.2 hin

/-- An empty text has no mark of a comment. -/
theorem unmarked_nil : Unmarked [] := ⟨by simp, by simp⟩

/-- What is left of a text starts as the text does, unless the text starts with a slash. -/
theorem Strips.head?_eq {t v : Text} (h : Strips t v) (ht : ∀ c ∈ t.head?, c ≠ '/') :
    v.head? = t.head? := by
  cases h with
  | nil | code _ _ _ | literal _ _ _ | unclosed _ _ => rfl
  | line | lineEnd | block | blockEnd => exact absurd rfl (ht '/' rfl)

/-- A slash that starts no comment starts none in what is left. -/
theorem Strips.next {c : Char} {r v : Text} (h : Strips r v)
    (hslash : c = '/' → ∀ d ∈ r.head?, d ≠ '/' ∧ d ≠ '*') :
    c = '/' → ∀ d ∈ v.head?, d ≠ '/' ∧ d ≠ '*' := by
  intro hc d hd
  rw [h.head?_eq fun e he => (hslash hc e he).1] at hd
  exact hslash hc d hd

/-- **What is left of a text has no comments.** -/
theorem Strips.stripped {t v : Text} (h : Strips t v) : Strips v v := by
  induction h with
  | nil => exact .nil
  | code hc hslash hrest ih => exact .code hc (hrest.next hslash) ih
  | line _ _ ih => exact .code rfl (fun h => absurd h (by decide)) ih
  | lineEnd => exact .nil
  | block _ _ ih => exact ih
  | blockEnd => exact .nil
  | literal hq hsealed _ ih => exact .literal hq hsealed ih
  | unclosed hq hw => exact .unclosed hq hw

/-- The code in front of a text starts as the text does, up to a quote. -/
theorem mem_head?_of_lead {t : Text} {d : Char} (h : d ∈ (lead (split t)).head?) : d ∈ t.head? := by
  rw [lead_split] at h
  rcases t with _ | ⟨e, t⟩
  · exact h
  · rcases he : isCode e with _ | _
    · rw [List.takeWhile_cons_of_neg (by simp [he])] at h
      cases h
    · rwa [List.takeWhile_cons_of_pos he] at h

/-- No mark that starts a comment stands in the code of a text. -/
def CodeUnmarked (t : Text) : Prop :=
  ∀ code, .code code ∈ split t → Unmarked code

/-- An empty text has no mark of a comment in its code. -/
theorem codeUnmarked_nil : CodeUnmarked [] := by
  intro code hmem
  cases hmem

/-- One more character of code makes no mark, unless it does with the next character. -/
theorem CodeUnmarked.cons {c : Char} {t : Text} (h : CodeUnmarked t) (hc : isCode c = true)
    (hnext : c = '/' → ∀ d ∈ t.head?, d ≠ '/' ∧ d ≠ '*') : CodeUnmarked (c :: t) := by
  have hfront : Unmarked (lead (split t)) := by
    rcases hsplit : split t with _ | ⟨code | _, cs⟩
    · exact unmarked_nil
    · exact h code (by rw [hsplit]; exact List.mem_cons_self)
    · exact unmarked_nil
  intro code hmem
  rw [split_cons hc] at hmem
  rcases code_mem_consCode hmem with rfl | hmem
  · exact hfront.cons fun hslash d hd => hnext hslash d (mem_head?_of_lead hd)
  · exact h code hmem

/-- **No mark that starts a comment stands in the code of what is left.** -/
theorem Strips.codeUnmarked {t v : Text} (h : Strips t v) : CodeUnmarked v := by
  induction h with
  | nil | lineEnd | blockEnd => exact codeUnmarked_nil
  | code hc hslash hrest ih => exact ih.cons hc (hrest.next hslash)
  | line _ _ ih => exact ih.cons rfl fun h => absurd h (by decide)
  | block _ _ ih => exact ih
  | literal hq hsealed _ ih =>
    intro code hmem
    rw [split_literal hq hsealed, List.mem_cons] at hmem
    rcases hmem with heq | hmem
    · cases heq
    · exact ih code hmem
  | unclosed hq hw =>
    intro code hmem
    rw [split_unclosed hq hw, List.mem_singleton] at hmem
    cases hmem

/-! ## The literals of a text -/

/-- A character starts no comment if it is no slash, or if no slash and no asterisk comes next. -/
theorem not_mark_iff {c : Char} {r : Text} :
    (¬ ['/', '/'] <+: c :: r ∧ ¬ ['/', '*'] <+: c :: r) ↔
    (c = '/' → ∀ d ∈ r.head?, d ≠ '/' ∧ d ≠ '*') := by
  rcases r with _ | ⟨d, r⟩
  · simp
  · simp only [List.cons_prefix_cons, List.nil_prefix, and_true, List.head?_cons, Option.mem_def,
      Option.some.injEq, forall_eq']
    grind

/-- **The literals of what is left are those that the text holds.** -/
theorem Strips.holds {t v : Text} (h : Strips t v) : Holds t (literals v) := by
  induction h with
  | nil => exact .nil
  | code hc hslash _ ih =>
    obtain ⟨hline, hblock⟩ := not_mark_iff.mpr hslash
    rw [literals_cons hc]
    exact .code hc hline hblock ih
  | line hbody _ ih =>
    rw [literals_cons rfl]
    exact .line hbody ih
  | lineEnd hbody => exact .lineEnd hbody
  | block hbody _ ih => exact .block hbody ih
  | blockEnd hbody => exact .blockEnd hbody
  | literal hq hsealed _ ih =>
    rw [literals_literal hq hsealed]
    exact .literal hq hsealed ih
  | unclosed hq hw =>
    rw [literals_unclosed hq hw]
    exact .unclosed hq hw

/-- What a text holds, a scan finds in what is left of it. -/
theorem Holds.exists_strips {t : Text} {ls : List Chunk} (h : Holds t ls) :
    ∃ v, Strips t v ∧ literals v = ls := by
  induction h with
  | nil => exact ⟨[], .nil, rfl⟩
  | @code c r ls hc hline hblock _ ih =>
    obtain ⟨v, hv, rfl⟩ := ih
    exact ⟨c :: v, .code hc (not_mark_iff.mp ⟨hline, hblock⟩) hv, literals_cons hc v⟩
  | line hbody _ ih =>
    obtain ⟨v, hv, rfl⟩ := ih
    exact ⟨'\n' :: v, .line hbody hv, literals_cons rfl v⟩
  | lineEnd hbody => exact ⟨[], .lineEnd hbody, rfl⟩
  | block hbody _ ih =>
    obtain ⟨v, hv, rfl⟩ := ih
    exact ⟨v, .block hbody hv, rfl⟩
  | blockEnd hbody => exact ⟨[], .blockEnd hbody, rfl⟩
  | @literal q body r ls hq hsealed _ ih =>
    obtain ⟨v, hv, rfl⟩ := ih
    exact ⟨_, .literal hq hsealed hv, literals_literal hq hsealed v⟩
  | unclosed hq hw => exact ⟨_, .unclosed hq hw, literals_unclosed hq hw⟩

/-- **Stripping comments is done once, and it keeps to the code.** A text without its comments stays
as it is when it is stripped again; no mark that starts a comment stands in its code; and the
literals that a scan finds in it are, one after the other, those that the text itself holds outside
of its comments. -/
theorem stripComments_keeps_to_code (t : Text) :
    stripComments (stripComments t) = stripComments t ∧
      (∀ code, .code code ∈ split (stripComments t) →
        ¬ ['/', '/'] <:+: code ∧ ¬ ['/', '*'] <:+: code) ∧
      ∀ ls, (split (stripComments t)).filter isLiteral = ls ↔ Holds t ls := by
  have hstrips : Strips t (stripComments t) := strips t
  refine ⟨hstrips.stripped.stripComments_eq, hstrips.codeUnmarked, fun ls => ⟨?_, ?_⟩⟩
  · rintro rfl
    exact hstrips.holds
  · intro hholds
    obtain ⟨v, hv, hls⟩ := hholds.exists_strips
    rw [hv.stripComments_eq]
    exact hls

end ShapedReply
