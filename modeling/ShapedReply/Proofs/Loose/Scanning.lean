import ShapedReply.Loose.Mend

/-!
# How the stages of mending move along a text

The stages cut a text into chunks and work chunk by chunk. Proofs about whole documents want to go
along the text instead: past one character of code, or past one literal, with any text behind it.
This file proves that view once, as equations that fix what each stage does to `c :: r` for a
character `c` of code and to `q :: (body ++ q :: r)` for a literal.

* `split_cons`, `split_literal`: the chunks of a text, one character or one literal at a time.
* `stripComments`, `dropTrailingCommas`, `quoteKeys`, `requote`, `escapeControls`: two equations
  each (`_cons`, `_literal`). The stage that drops commas looks ahead for a closing bracket and the
  one that quotes keys for a colon; both stop at a quote, so looking ahead in the chunk is looking
  ahead in the text (`closesNext_lead`, `endsKey_lead`).

A literal is a `Sealed` body between two quotes: inside it the quote occurs only behind a backslash.
What is proved of a text by going along it is proved by induction on `Scanned`.
-/

namespace ShapedReply

/-! ## Literals -/

/-- Text that can stand between two quotes without closing the literal: every backslash has its
character, and the quote occurs only behind a backslash. -/
inductive Sealed (q : Char) : Text → Prop where
  | nil : Sealed q []
  | plain {c : Char} {r : Text} : c ≠ '\\' → c ≠ q → Sealed q r → Sealed q (c :: r)
  | escaped {c : Char} {r : Text} : Sealed q r → Sealed q ('\\' :: c :: r)

namespace Sealed

variable {q : Char}

/-- Sealed texts in a row are sealed. -/
theorem append {s t : Text} (hs : Sealed q s) (ht : Sealed q t) : Sealed q (s ++ t) := by
  induction hs with
  | nil => exact ht
  | plain h₁ h₂ _ ih => exact .plain h₁ h₂ ih
  | escaped _ ih => exact .escaped ih

/-- A row of texts is sealed when each of them is. -/
theorem flatMap {α : Type} {f : α → Text} {xs : List α} (h : ∀ x ∈ xs, Sealed q (f x)) :
    Sealed q (xs.flatMap f) := by
  induction xs with
  | nil => exact .nil
  | cons x xs ih =>
    rw [List.forall_mem_cons] at h
    rw [List.flatMap_cons]
    exact h.1.append (ih h.2)

end Sealed

/-- Text behind a quote in which the literal is still open at the end: sealed text, perhaps with a
backslash that waits for its character. -/
def Unclosed (q : Char) (w : Text) : Prop :=
  Sealed q w ∨ ∃ v, Sealed q v ∧ w = v ++ ['\\']

/-- Whether a character opens no literal. -/
def isCode (c : Char) : Bool := !looseQuotes.contains c

/-- The characters that open literals are the two quotes. -/
theorem isCode_eq_false_iff {c : Char} : isCode c = false ↔ c = '"' ∨ c = '\'' := by
  rw [isCode, Bool.not_eq_false', looseQuotes, List.contains_iff_mem]
  simp

/-- What holds of neither quote holds of code only. -/
theorem isCode_of_quotes {p : Char → Bool} (hdouble : p '"' = false) (hsingle : p '\'' = false)
    {c : Char} (h : p c = true) : isCode c = true := by
  rcases hc : isCode c with _ | _
  · rcases isCode_eq_false_iff.mp hc with rfl | rfl
    · exact hdouble.symm.trans h
    · exact hsingle.symm.trans h
  · rfl

/-- A character of code is no quote. -/
theorem contains_of_isCode {c : Char} (h : isCode c = true) : looseQuotes.contains c = false := by
  rwa [isCode, Bool.not_eq_true'] at h

/-- What is no character of code is a quote. -/
theorem contains_of_not_isCode {c : Char} (h : isCode c = false) :
    looseQuotes.contains c = true := by
  rwa [isCode, Bool.not_eq_false'] at h

/-- A quote is no backslash. -/
theorem ne_backslash {q : Char} (hq : isCode q = false) : q ≠ '\\' := by
  rintro rfl
  exact absurd hq (by decide)

/-- A beginning of sealed text is unclosed. -/
theorem Sealed.unclosed {q : Char} {body w : Text} (h : Sealed q body) (hw : w <+: body) :
    Unclosed q w := by
  induction h generalizing w with
  | nil =>
    rw [List.prefix_nil.mp hw]
    exact .inl .nil
  | @plain c r h₁ h₂ _ ih =>
    rcases List.prefix_cons_iff.mp hw with rfl | ⟨u, rfl, hu⟩
    · exact .inl .nil
    rcases ih hu with h | ⟨v, h, rfl⟩
    · exact .inl (.plain h₁ h₂ h)
    · exact .inr ⟨c :: v, .plain h₁ h₂ h, rfl⟩
  | @escaped c r _ ih =>
    rcases List.prefix_cons_iff.mp hw with rfl | ⟨u, rfl, hu⟩
    · exact .inl .nil
    rcases List.prefix_cons_iff.mp hu with rfl | ⟨u', rfl, hu'⟩
    · exact .inr ⟨[], .nil, rfl⟩
    rcases ih hu' with h | ⟨v, h, rfl⟩
    · exact .inl (.escaped h)
    · exact .inr ⟨'\\' :: c :: v, .escaped h, rfl⟩

/-- A beginning of unclosed text is unclosed. -/
theorem Unclosed.beginning {q : Char} {w v : Text} (h : Unclosed q w) (hv : v <+: w) :
    Unclosed q v := by
  rcases h with h | ⟨u, h, rfl⟩
  · exact h.unclosed hv
  · rcases List.prefix_concat_iff.mp hv with rfl | hv
    · exact .inr ⟨u, h, rfl⟩
    · exact h.unclosed hv

/-- Text behind a quote goes on up to the next one, or leaves the literal open. -/
theorem sealed_or_unclosed {q : Char} (hq : q ≠ '\\') :
    (t : Text) → (∃ body r, Sealed q body ∧ t = body ++ q :: r) ∨ Unclosed q t
  | [] => .inr (.inl .nil)
  | c :: t => by
    by_cases hquote : c = q
    · subst hquote
      exact .inl ⟨[], t, .nil, rfl⟩
    by_cases hescape : c = '\\'
    · subst hescape
      rcases t with _ | ⟨d, t⟩
      · exact .inr (.inr ⟨[], .nil, rfl⟩)
      rcases sealed_or_unclosed hq t with ⟨body, r, h, rfl⟩ | h | ⟨v, h, rfl⟩
      · exact .inl ⟨'\\' :: d :: body, r, .escaped h, rfl⟩
      · exact .inr (.inl (.escaped h))
      · exact .inr (.inr ⟨'\\' :: d :: v, .escaped h, rfl⟩)
    · rcases sealed_or_unclosed hq t with ⟨body, r, h, rfl⟩ | h | ⟨v, h, rfl⟩
      · exact .inl ⟨c :: body, r, .plain hescape hquote h, rfl⟩
      · exact .inr (.inl (.plain hescape hquote h))
      · exact .inr (.inr ⟨c :: v, .plain hescape hquote h, rfl⟩)

/-- `Scanned C L t`: the text `t` as a scan sees it, character of code by character of code and
literal by literal, of which the last may still be open. The characters of code have the property
`C`, and what stands in a literal the property `L`. -/
inductive Scanned (C : Char → Prop) (L : Char → Text → Prop) : Text → Prop where
  | nil : Scanned C L []
  | code {c : Char} {r : Text} : isCode c = true → C c → Scanned C L r → Scanned C L (c :: r)
  | literal {q : Char} {body r : Text} : isCode q = false → Sealed q body → L q body →
      Scanned C L r → Scanned C L (q :: (body ++ q :: r))
  | unclosed {q : Char} {w : Text} : isCode q = false → Unclosed q w → L q w → Scanned C L (q :: w)

/-- Every text of at most `n` characters can be scanned. -/
theorem scanned_of_length_le {n : Nat} {t : Text} (hn : t.length ≤ n) :
    Scanned (fun _ => True) (fun _ _ => True) t := by
  induction n generalizing t with
  | zero =>
    rw [List.length_eq_zero_iff.mp (Nat.le_zero.mp hn)]
    exact .nil
  | succ n ih =>
    rcases t with _ | ⟨c, t⟩
    · exact .nil
    rcases hc : isCode c with _ | _
    · rcases sealed_or_unclosed (ne_backslash hc) t with ⟨body, r, hsealed, rfl⟩ | hopen
      · rw [List.length_cons, List.length_append, List.length_cons] at hn
        exact .literal hc hsealed trivial (ih (by omega))
      · exact .unclosed hc hopen trivial
    · exact .code hc trivial (ih (Nat.le_of_succ_le_succ hn))

/-- Every text can be scanned. -/
theorem scanned (t : Text) : Scanned (fun _ => True) (fun _ _ => True) t :=
  scanned_of_length_le (Nat.le_refl t.length)

namespace Scanned

variable {C : Char → Prop} {L : Char → Text → Prop}

/-- What is scanned with more asked of its characters is scanned with less. -/
theorem mono {C' : Char → Prop} {t : Text} (hC : ∀ c, C c → C' c) (h : Scanned C L t) :
    Scanned C' L t := by
  induction h with
  | nil => exact .nil
  | code hcode hc _ ih => exact .code hcode (hC _ hc) ih
  | literal hq hsealed hbody _ ih => exact .literal hq hsealed hbody ih
  | unclosed hq hw hbody => exact .unclosed hq hw hbody

/-- Behind a character of code a text is scanned as before. -/
theorem of_cons {t : Text} (h : Scanned C L t) {c : Char} {r : Text} (ht : t = c :: r)
    (hc : isCode c = true) : Scanned C L r := by
  have hnot : ∀ {q : Char} {s : Text}, q :: s = c :: r → isCode q ≠ false := by
    intro q s heq hq
    rw [(List.cons.inj heq).1, hc] at hq
    cases hq
  cases h with
  | nil => cases ht
  | code _ _ h =>
    cases ht
    exact h
  | literal hq => exact absurd hq (hnot ht)
  | unclosed hq => exact absurd hq (hnot ht)

/-- A row of code before a text is scanned with it. -/
theorem append_code {w r : Text} (h : Scanned C L r) (hw : ∀ c ∈ w, isCode c = true ∧ C c) :
    Scanned C L (w ++ r) := by
  induction w with
  | nil => exact h
  | cons c w ih =>
    rw [List.forall_mem_cons] at hw
    exact .code hw.1.1 hw.1.2 (ih hw.2)

/-- Behind a row of code a text is scanned as before. -/
theorem of_append {w r : Text} (hw : ∀ c ∈ w, isCode c = true) (h : Scanned C L (w ++ r)) :
    Scanned C L r := by
  induction w with
  | nil => exact h
  | cons c w ih =>
    rw [List.forall_mem_cons] at hw
    exact ih hw.2 (h.of_cons rfl hw.1)

end Scanned

/-! ## Chunks -/

namespace Chunk

/-- Chunks with one more character of code in front. -/
def consCode (c : Char) : List Chunk → List Chunk
  | .code t :: cs => .code (c :: t) :: cs
  | cs => .code [c] :: cs

/-- The code with which chunks begin. -/
def lead : List Chunk → Text
  | .code t :: _ => t
  | _ => []

/-- The chunks behind the code with which they begin. -/
def behind : List Chunk → List Chunk
  | .code _ :: cs => cs
  | cs => cs

/-- A character of code leads the code that follows. -/
@[simp] theorem lead_consCode (c : Char) (cs : List Chunk) :
    lead (consCode c cs) = c :: lead cs := by
  rcases cs with _ | ⟨_ | _, _⟩ <;> rfl

/-- A character of code changes nothing behind the first code. -/
@[simp] theorem behind_consCode (c : Char) (cs : List Chunk) :
    behind (consCode c cs) = behind cs := by
  rcases cs with _ | ⟨_ | _, _⟩ <;> rfl

/-! The steps of the scan, one for each place where it can stand. -/

/-- One character of code: a quote ends the chunk and starts a literal. -/
theorem splitFrom_code_cons (acc : Text) (c : Char) (r : Text) :
    splitFrom .code acc (c :: r) =
      if looseQuotes.contains c then ofCode acc ++ splitFrom (.inside c) [] r
      else splitFrom .code (c :: acc) r := rfl

/-- One character of a literal: its quote ends the chunk. -/
theorem splitFrom_inside_cons (q : Char) (acc : Text) (c : Char) (r : Text) :
    splitFrom (.inside q) acc (c :: r) =
      if c = '\\' then splitFrom (.escaped q) (c :: acc) r
      else if c = q then .literal q acc.reverse true :: splitFrom .code [] r
      else splitFrom (.inside q) (c :: acc) r := rfl

/-- An escaped character belongs to its literal. -/
theorem splitFrom_escaped_cons (q : Char) (acc : Text) (c : Char) (r : Text) :
    splitFrom (.escaped q) acc (c :: r) = splitFrom (.inside q) (c :: acc) r := rfl

/-- From inside a literal the scan first finishes that literal. -/
theorem exists_splitFrom_eq_literal (place : Place) (hp : place ≠ .code) (acc r : Text) :
    ∃ q body closed cs, splitFrom place acc r = .literal q body closed :: cs := by
  induction r generalizing place acc with
  | nil =>
    cases place with
    | code => exact absurd rfl hp
    | inside q => exact ⟨_, _, _, _, rfl⟩
    | escaped q => exact ⟨_, _, _, _, rfl⟩
  | cons c r ih =>
    cases place with
    | code => exact absurd rfl hp
    | inside q =>
      rw [splitFrom_inside_cons]
      split
      · exact ih _ (by simp) _
      · split
        · exact ⟨_, _, _, _, rfl⟩
        · exact ih _ (by simp) _
    | escaped q =>
      rw [splitFrom_escaped_cons]
      exact ih _ (by simp) _

/-- A character read earlier stands in front of the chunk that is being read. -/
theorem splitFrom_snoc (c : Char) (acc r : Text) :
    splitFrom .code (acc ++ [c]) r = consCode c (splitFrom .code acc r) := by
  have collected : ∀ cs, (∀ t ds, cs ≠ .code t :: ds) →
      ofCode (acc ++ [c]) ++ cs = consCode c (ofCode acc ++ cs) := by
    intro cs hcs
    unfold ofCode
    cases acc with
    | nil =>
      rcases cs with _ | ⟨t | _, ds⟩
      · rfl
      · exact absurd rfl (hcs t ds)
      · rfl
    | cons a acc => simp [consCode]
  induction r generalizing acc with
  | nil =>
    have h := collected [] (by simp)
    rw [List.append_nil, List.append_nil] at h
    exact h
  | cons d r ih =>
    rw [splitFrom_code_cons, splitFrom_code_cons]
    split
    · obtain ⟨q, body, closed, cs, hcs⟩ := exists_splitFrom_eq_literal (.inside d) (by simp) [] r
      rw [hcs]
      exact collected _ (by simp)
    · rw [← List.cons_append]
      apply ih
      intro cs hcs
      unfold ofCode
      simp [consCode]

/-- Past a character of code. -/
theorem split_cons {c : Char} (hc : isCode c = true) (r : Text) :
    split (c :: r) = consCode c (split r) := by
  have h := splitFrom_snoc c [] r
  rw [List.nil_append] at h
  unfold split
  rw [splitFrom_code_cons, contains_of_isCode hc]
  exact h

/-- Past sealed text a scan stands inside the literal still. -/
theorem splitFrom_sealed_append {q : Char} {body : Text} (h : Sealed q body) (acc r : Text) :
    splitFrom (.inside q) acc (body ++ r) = splitFrom (.inside q) (body.reverse ++ acc) r := by
  induction h generalizing acc with
  | nil => rfl
  | plain h₁ h₂ _ ih =>
    rw [List.cons_append, splitFrom_inside_cons, if_neg h₁, if_neg h₂, ih]
    simp
  | escaped _ ih =>
    rw [List.cons_append, splitFrom_inside_cons, if_pos rfl, List.cons_append,
      splitFrom_escaped_cons, ih]
    simp

/-- Past the inside of a literal. -/
theorem splitFrom_sealed {q : Char} (hq : q ≠ '\\') {body : Text} (h : Sealed q body)
    (acc r : Text) :
    splitFrom (.inside q) acc (body ++ q :: r) =
      .literal q (acc.reverse ++ body) true :: split r := by
  rw [splitFrom_sealed_append h, splitFrom_inside_cons, if_neg hq, if_pos rfl]
  simp [split]

/-- Past a literal. -/
theorem split_literal {q : Char} (hq : isCode q = false) {body : Text}
    (h : Sealed q body) (r : Text) :
    split (q :: (body ++ q :: r)) = .literal q body true :: split r := by
  rw [split, splitFrom_code_cons, if_pos (contains_of_not_isCode hq),
    splitFrom_sealed (ne_backslash hq) h]
  rfl

/-- The inside of a literal in which the text breaks off. -/
theorem splitFrom_sealed_end {q : Char} {body : Text} (h : Sealed q body) (acc : Text) {s : Text}
    (hs : s = [] ∨ s = ['\\']) :
    splitFrom (.inside q) acc (body ++ s) = [.literal q (acc.reverse ++ (body ++ s)) false] := by
  rw [splitFrom_sealed_append h]
  rcases hs with rfl | rfl <;> simp [splitFrom]

/-- A literal in which the text breaks off. -/
theorem split_unclosed {q : Char} (hq : isCode q = false) {w : Text} (h : Unclosed q w) :
    split (q :: w) = [.literal q w false] := by
  rw [split, splitFrom_code_cons, if_pos (contains_of_not_isCode hq)]
  rcases h with h | ⟨v, h, rfl⟩
  · have := splitFrom_sealed_end h [] (.inl rfl)
    rwa [List.append_nil] at this
  · exact splitFrom_sealed_end h [] (.inr rfl)

/-- Past a character of code, when chunks of code are left as they are. -/
theorem mapChunks_cons {f : Chunk → Text} (hf : ∀ t, f (.code t) = t) {c : Char}
    (hc : isCode c = true) (r : Text) :
    mapChunks f (c :: r) = c :: mapChunks f r := by
  unfold mapChunks
  rw [split_cons hc]
  rcases split r with _ | ⟨_ | _, _⟩ <;> simp [consCode, hf]

/-- Past a literal, when chunks are changed one by one. -/
theorem mapChunks_literal (f : Chunk → Text) {q : Char} (hq : isCode q = false)
    {body : Text} (h : Sealed q body) (r : Text) :
    mapChunks f (q :: (body ++ q :: r)) = f (.literal q body true) ++ mapChunks f r := by
  unfold mapChunks
  rw [split_literal hq h, List.flatMap_cons]

/-- What a change of code does to a chunk. -/
def onCode (f : Text → Text) : Chunk → Text
  | .code t => f t
  | chunk => chunk.text

/-- What is done to code is done chunk by chunk. -/
theorem mapCode_eq_mapChunks (f : Text → Text) (t : Text) :
    mapCode f t = mapChunks (onCode f) t := by
  unfold mapCode mapChunks
  congr 1

/-- A change of code works on the code in front and on the chunks behind it. -/
theorem mapCode_eq {f : Text → Text} (hf : f [] = []) (t : Text) :
    mapCode f t = f (lead (split t)) ++ (behind (split t)).flatMap (onCode f) := by
  rw [mapCode_eq_mapChunks, mapChunks]
  rcases split t with _ | ⟨_ | _, _⟩ <;> simp [lead, behind, onCode, hf]

/-- Past a literal, when only code is changed. -/
theorem mapCode_literal (f : Text → Text) {q : Char} (hq : isCode q = false)
    {body : Text} (h : Sealed q body) (r : Text) :
    mapCode f (q :: (body ++ q :: r)) = q :: (body ++ q :: mapCode f r) := by
  rw [mapCode_eq_mapChunks, mapCode_eq_mapChunks, mapChunks_literal _ hq h]
  simp [onCode, text]

/-- The code in front of a text goes up to the first quote. -/
theorem lead_split (r : Text) :
    lead (split r) = r.takeWhile isCode := by
  induction r with
  | nil => rfl
  | cons c r ih =>
    rcases hc : isCode c with _ | _
    · obtain ⟨q, body, closed, cs, hcs⟩ := exists_splitFrom_eq_literal (.inside c) (by simp) [] r
      rw [split, splitFrom_code_cons, if_pos (contains_of_not_isCode hc), hcs,
        List.takeWhile_cons_of_neg (by simp [hc])]
      rfl
    · rw [split_cons hc, lead_consCode, ih, List.takeWhile_cons_of_pos hc]

end Chunk

namespace Mend

open Chunk Text

/-! ## Comments -/

/-! The steps of stripping, one for each place where it can stand. -/

/-- A character of code that starts no comment is kept. -/
theorem stripFrom_code_cons {c : Char} (hs : c ≠ '/') (r : Text) :
    stripFrom .code (c :: r) =
      c :: stripFrom (if looseQuotes.contains c then .inside c else .code) r := by
  rw [stripFrom]
  · rintro _ rfl
    exact absurd rfl hs
  · rintro _ rfl
    exact absurd rfl hs

/-- A character of a literal is kept. -/
theorem stripFrom_inside_cons (q c : Char) (r : Text) :
    stripFrom (.inside q) (c :: r) =
      c :: stripFrom (if c = '\\' then .escaped q else if c = q then .code else .inside q) r := by
  rw [stripFrom]

/-- An escaped character is kept. -/
theorem stripFrom_escaped_cons (q c : Char) (r : Text) :
    stripFrom (.escaped q) (c :: r) = c :: stripFrom (.inside q) r := by
  rw [stripFrom]

/-- A comment goes up to the end of its line. -/
theorem stripFrom_line_cons (c : Char) (r : Text) :
    stripFrom .line (c :: r) =
      if c = '\n' then c :: stripFrom .code r else stripFrom .line r := by
  rw [stripFrom]

/-- Past a character of code that starts no comment. -/
theorem stripFrom_cons {c : Char} (hc : isCode c = true) (hs : c ≠ '/') (r : Text) :
    stripFrom .code (c :: r) = c :: stripFrom .code r := by
  rw [stripFrom_code_cons hs, contains_of_isCode hc]
  rfl

/-- Past the inside of a literal. -/
theorem stripFrom_sealed {q : Char} (hq : q ≠ '\\') {body : Text} (h : Sealed q body) (r : Text) :
    stripFrom (.inside q) (body ++ q :: r) = body ++ q :: stripFrom .code r := by
  induction h with
  | nil => rw [List.nil_append, stripFrom_inside_cons, if_neg hq, if_pos rfl, List.nil_append]
  | plain h₁ h₂ _ ih =>
    rw [List.cons_append, stripFrom_inside_cons, if_neg h₁, if_neg h₂, ih, List.cons_append]
  | escaped _ ih =>
    rw [List.cons_append, stripFrom_inside_cons, if_pos rfl, List.cons_append,
      stripFrom_escaped_cons, ih]
    rfl

/-- Past a literal. -/
theorem stripFrom_literal {q : Char} (hq : isCode q = false) {body : Text}
    (h : Sealed q body) (r : Text) :
    stripFrom .code (q :: (body ++ q :: r)) = q :: (body ++ q :: stripFrom .code r) := by
  have hslash : q ≠ '/' := by
    rintro rfl
    exact absurd hq (by decide)
  rw [stripFrom_code_cons hslash, if_pos (contains_of_not_isCode hq),
    stripFrom_sealed (ne_backslash hq) h]

/-- A line comment goes, up to its line feed. -/
theorem stripFrom_line {body : Text} (h : '\n' ∉ body) (r : Text) :
    stripFrom .line (body ++ '\n' :: r) = '\n' :: stripFrom .code r := by
  induction body with
  | nil => rw [List.nil_append, stripFrom_line_cons, if_pos rfl]
  | cons c body ih =>
    rw [List.mem_cons, not_or] at h
    rw [List.cons_append, stripFrom_line_cons, if_neg (Ne.symm h.1), ih h.2]

/-- A line comment at the end of a text goes. -/
theorem stripFrom_line_end {body : Text} (h : '\n' ∉ body) : stripFrom .line body = [] := by
  induction body with
  | nil => rfl
  | cons c body ih =>
    rw [List.mem_cons, not_or] at h
    rw [stripFrom_line_cons, if_neg (Ne.symm h.1), ih h.2]

/-- A block comment goes, up to its mark. -/
theorem stripFrom_block {body : Text} (h : ¬ ['*', '/'] <:+: body) (r : Text) :
    stripFrom .block (body ++ '*' :: '/' :: r) = stripFrom .code r := by
  induction body with
  | nil => rfl
  | cons c body ih =>
    have hbody : ¬ ['*', '/'] <:+: body := fun hin =>
      h (hin.trans (List.suffix_cons c body).isInfix)
    rw [List.cons_append, stripFrom, ih hbody]
    rintro s rfl hs
    cases body with
    | nil =>
      rw [List.nil_append] at hs
      cases hs
    | cons d body =>
      rw [List.cons_append] at hs
      cases hs
      exact h ⟨[], body, rfl⟩

/-! ## Commas -/

/-- Characters that are passed over before the first quote are passed over in the code in front. -/
theorem dropWhile_lead {p : Char → Bool} (hp : ∀ c, p c = true → isCode c = true)
    (r : Text) :
    (r.takeWhile isCode).dropWhile p =
      (r.dropWhile p).takeWhile isCode := by
  induction r with
  | nil => rfl
  | cons c r ih =>
    by_cases hc : p c = true
    · rw [List.takeWhile_cons_of_pos (hp c hc), List.dropWhile_cons_of_pos hc,
        List.dropWhile_cons_of_pos hc, ih]
    · rw [List.dropWhile_cons_of_neg hc]
      rcases hq : isCode c with _ | _
      · rw [List.takeWhile_cons_of_neg (by simp [hq])]
        rfl
      · rw [List.takeWhile_cons_of_pos hq, List.dropWhile_cons_of_neg hc]

/-- A blank opens no literal. -/
theorem isCode_of_isBlank {c : Char} (h : isBlank c = true) : isCode c = true :=
  isCode_of_quotes rfl rfl h

/-- Looking ahead for a closing bracket stops at a quote. -/
theorem closesNext_lead (r : Text) : closesNext (lead (split r)) = closesNext r := by
  unfold closesNext trimStart
  rw [lead_split, dropWhile_lead fun c => isCode_of_isBlank]
  rcases r.dropWhile isBlank with _ | ⟨c, s⟩
  · rfl
  · rcases hc : isCode c with _ | _
    · rw [List.takeWhile_cons_of_neg (by simp [hc])]
      rcases isCode_eq_false_iff.mp hc with rfl | rfl <;> rfl
    · rw [List.takeWhile_cons_of_pos hc]

/-- Past a character of code: a comma goes when a closing bracket comes next. -/
theorem dropTrailingCommas_cons {c : Char} (hc : isCode c = true) (r : Text) :
    dropTrailingCommas (c :: r) =
      if c = ',' && closesNext r then dropTrailingCommas r else c :: dropTrailingCommas r := by
  unfold dropTrailingCommas
  rw [mapCode_eq rfl, mapCode_eq rfl, split_cons hc, lead_consCode, behind_consCode, dropCommas,
    closesNext_lead]
  split <;> rfl

/-- Past a literal. -/
theorem dropTrailingCommas_literal {q : Char} (hq : isCode q = false) {body : Text}
    (h : Sealed q body) (r : Text) :
    dropTrailingCommas (q :: (body ++ q :: r)) = q :: (body ++ q :: dropTrailingCommas r) :=
  mapCode_literal dropCommas hq h r

/-! ## Bare keys -/

/-- A character of a key opens no literal. -/
theorem isCode_of_isNamePart {c : Char} (h : Text.isNamePart c = true) : isCode c = true :=
  isCode_of_quotes rfl rfl h

/-- Looking ahead for a colon stops at a quote. -/
theorem endsKey_lead (r : Text) : endsKey (lead (split r)) = endsKey r := by
  unfold endsKey trimStart
  rw [lead_split, dropWhile_lead fun c => isCode_of_isNamePart,
    dropWhile_lead fun c => isCode_of_isBlank]
  rcases (r.dropWhile Text.isNamePart).dropWhile isBlank with _ | ⟨c, s⟩
  · rfl
  · rcases hc : isCode c with _ | _
    · rw [List.takeWhile_cons_of_neg (by simp [hc])]
      rcases isCode_eq_false_iff.mp hc with rfl | rfl <;> rfl
    · rw [List.takeWhile_cons_of_pos hc]

/-- Key quoting from a text on, given where it stands. -/
def quoteKeysIn (k : Keys) (t : Text) : Text :=
  quoteKeysFrom k (lead (split t)) ++ (behind (split t)).flatMap (onCode (quoteKeysFrom .elsewhere))

/-- Quoting keys starts where none is expected. -/
theorem quoteKeys_eq (t : Text) : quoteKeys t = quoteKeysIn .elsewhere t :=
  mapCode_eq rfl t

/-! The steps of key quoting where a key may start and inside one. -/

/-- Where a key is expected, a name that a colon follows is quoted. -/
theorem quoteKeysFrom_expected_cons (c : Char) (r : Text) :
    quoteKeysFrom .expected (c :: r) =
      if Text.isNameStart c && endsKey r then '"' :: c :: quoteKeysFrom .inside r
      else c ::
        quoteKeysFrom (if c = '{' || c = ',' || isBlank c then .expected else .elsewhere) r :=
  rfl

/-- A key that is quoted ends with its name. -/
theorem quoteKeysFrom_inside_cons (c : Char) (r : Text) :
    quoteKeysFrom .inside (c :: r) =
      if Text.isNamePart c then c :: quoteKeysFrom .inside r
      else '"' :: c :: quoteKeysFrom .elsewhere r := rfl

/-- Past a character of code where no key can start. -/
theorem quoteKeysIn_elsewhere_cons {c : Char} (hc : isCode c = true) (r : Text) :
    quoteKeysIn .elsewhere (c :: r) =
      c :: quoteKeysIn (if c = '{' || c = ',' then .expected else .elsewhere) r := by
  unfold quoteKeysIn
  rw [split_cons hc, lead_consCode, behind_consCode]
  rfl

/-- Past a character of code where a key may start: a quote is put before it when it starts one. -/
theorem quoteKeysIn_expected_cons {c : Char} (hc : isCode c = true) (r : Text) :
    quoteKeysIn .expected (c :: r) =
      if Text.isNameStart c && endsKey r then '"' :: c :: quoteKeysIn .inside r
      else c ::
        quoteKeysIn (if c = '{' || c = ',' || isBlank c then .expected else .elsewhere) r := by
  unfold quoteKeysIn
  rw [split_cons hc, lead_consCode, behind_consCode, quoteKeysFrom_expected_cons, endsKey_lead]
  split <;> rfl

/-- Past a character of code inside a key: a quote is put before it when the key is over. -/
theorem quoteKeysIn_inside_cons {c : Char} (hc : isCode c = true) (r : Text) :
    quoteKeysIn .inside (c :: r) =
      if Text.isNamePart c then c :: quoteKeysIn .inside r
      else '"' :: c :: quoteKeysIn .elsewhere r := by
  unfold quoteKeysIn
  rw [split_cons hc, lead_consCode, behind_consCode, quoteKeysFrom_inside_cons]
  split <;> rfl

/-- Past a literal, outside a bare key. -/
theorem quoteKeysIn_literal {k : Keys} (hk : quoteKeysFrom k [] = []) {q : Char}
    (hq : isCode q = false) {body : Text} (h : Sealed q body) (r : Text) :
    quoteKeysIn k (q :: (body ++ q :: r)) = q :: (body ++ q :: quoteKeysIn .elsewhere r) := by
  have hlead : ∀ cs, lead (.literal q body true :: cs) = [] := fun _ => rfl
  have hbehind : ∀ cs, behind (.literal q body true :: cs) = .literal q body true :: cs :=
    fun _ => rfl
  unfold quoteKeysIn
  rw [split_literal hq h, hlead, hk, hbehind, List.flatMap_cons, List.nil_append]
  rcases split r with _ | ⟨_ | _, _⟩ <;> simp [onCode, text, lead, behind, quoteKeysFrom]

/-! ## Quotes and control characters -/

/-- Past a character of code. -/
theorem requote_cons {c : Char} (hc : isCode c = true) (r : Text) :
    requote (c :: r) = c :: requote r :=
  mapChunks_cons (fun _ => rfl) hc r

/-- Past a literal. -/
theorem requote_literal {q : Char} (hq : isCode q = false) {body : Text}
    (h : Sealed q body) (r : Text) :
    requote (q :: (body ++ q :: r)) =
      (if q = '\'' then '"' :: (requoteBody body ++ '"' :: requote r)
        else q :: (body ++ q :: requote r)) := by
  unfold requote
  rw [mapChunks_literal _ hq h, requoteChunk]
  split <;> simp [text]

/-- A quote is no control character. -/
theorem escapeControl_quote {q : Char} (hq : isCode q = false) : escapeControl q = [q] := by
  rcases isCode_eq_false_iff.mp hq with rfl | rfl <;> rfl

/-- Past a character of code. -/
theorem escapeControls_cons {c : Char} (hc : isCode c = true) (r : Text) :
    escapeControls (c :: r) = c :: escapeControls r :=
  mapChunks_cons (fun _ => rfl) hc r

/-- Past a literal. -/
theorem escapeControls_literal {q : Char} (hq : isCode q = false) {body : Text}
    (h : Sealed q body) (r : Text) :
    escapeControls (q :: (body ++ q :: r)) =
      q :: (body.flatMap escapeControl ++ q :: escapeControls r) := by
  unfold escapeControls
  rw [mapChunks_literal _ hq h]
  simp [escapeChunk, text, escapeControl_quote hq]

/-! ## Literals in which the text breaks off -/

/-- The inside of such a literal has no comments. -/
theorem stripFrom_sealed_end {q : Char} {body s : Text} (h : Sealed q body)
    (hs : s = [] ∨ s = ['\\']) : stripFrom (.inside q) (body ++ s) = body ++ s := by
  induction h with
  | nil => rcases hs with rfl | rfl <;> rfl
  | plain h₁ h₂ _ ih =>
    rw [List.cons_append, stripFrom_inside_cons, if_neg h₁, if_neg h₂, ih]
  | escaped _ ih =>
    rw [List.cons_append, stripFrom_inside_cons, if_pos rfl, List.cons_append,
      stripFrom_escaped_cons, ih]

/-- A literal that is not closed is kept by the removal of comments. -/
theorem stripFrom_unclosed {q : Char} (hq : isCode q = false) {w : Text} (h : Unclosed q w) :
    stripFrom .code (q :: w) = q :: w := by
  have hslash : q ≠ '/' := by
    rintro rfl
    exact absurd hq (by decide)
  have hopen : stripFrom .code (q :: w) = q :: stripFrom (.inside q) w := by
    rw [stripFrom_code_cons hslash, if_pos (contains_of_not_isCode hq)]
  rw [hopen]
  rcases h with h | ⟨v, h, rfl⟩
  · have := stripFrom_sealed_end h (.inl rfl)
    rw [List.append_nil] at this
    rw [this]
  · rw [stripFrom_sealed_end h (.inr rfl)]

/-- A literal that is not closed is kept by the removal of commas. -/
theorem dropTrailingCommas_unclosed {q : Char} (hq : isCode q = false) {w : Text}
    (h : Unclosed q w) :
    dropTrailingCommas (q :: w) = q :: w := by
  unfold dropTrailingCommas mapCode
  rw [split_unclosed hq h]
  simp [text]

/-- A literal that is not closed is kept by the quoting of keys. -/
theorem quoteKeysIn_unclosed {k : Keys} (hk : quoteKeysFrom k [] = []) {q : Char}
    (hq : isCode q = false) {w : Text} (h : Unclosed q w) : quoteKeysIn k (q :: w) = q :: w := by
  unfold quoteKeysIn
  rw [split_unclosed hq h]
  simp [lead, behind, onCode, text, hk]

/-- A literal that is not closed gets the double quote. -/
theorem requote_unclosed {q : Char} (hq : isCode q = false) {w : Text} (h : Unclosed q w) :
    requote (q :: w) = if q = '\'' then '"' :: requoteBody w else q :: w := by
  unfold requote mapChunks
  rw [split_unclosed hq h]
  simp [requoteChunk, text]

/-- In a literal that is not closed control characters are escaped. -/
theorem escapeControls_unclosed {q : Char} (hq : isCode q = false) {w : Text} (h : Unclosed q w) :
    escapeControls (q :: w) = q :: w.flatMap escapeControl := by
  unfold escapeControls mapChunks
  rw [split_unclosed hq h]
  simp [escapeChunk, text, escapeControl_quote hq]

end Mend

end ShapedReply
