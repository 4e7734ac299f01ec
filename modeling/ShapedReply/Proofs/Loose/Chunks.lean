import Mathlib.Data.List.Basic
import ShapedReply.Proofs.Loose.Scanning

/-!
# Chunks that a scan can cut

Every text has its chunks, and a list of chunks is the list of its text's chunks exactly when it is
well cut: code is not empty, has no quotes and is not followed by code, literals are sealed, and
only the last one may be open. So a stage that changes chunks one by one has moved no boundary if
what it makes of them is well cut.

* `split_eq_iff`: **the chunks of a text are the well-cut chunks that make up the text.**
* `split_mapChunks_iff`: **a stage that gives literals a new quote and a new inside leaves all
  boundaries where they are exactly if each new inside can stand behind its quote.**
-/

namespace ShapedReply

/-- Text in which a quote closes the literal is not open. -/
theorem Sealed.not_unclosed_append {q : Char} {s : Text} (h : Sealed q s) (hq : isCode q = false)
    (r : Text) : ¬ Unclosed q (s ++ q :: r) := by
  intro hopen
  have hsplit := Chunk.split_unclosed hq hopen
  rw [Chunk.split_literal hq h] at hsplit
  simp at hsplit

/-- A backslash behind a sealed text waits for its character, which a quote would be. -/
theorem Sealed.not_sealed_concat {q : Char} {s : Text} (h : Sealed q s) (hq : isCode q = false) :
    ¬ Sealed q (s ++ ['\\']) := by
  intro hlast
  have hopen : Sealed q (s ++ ['\\'] ++ [q]) := by simpa using h.append (.escaped (c := q) .nil)
  exact hlast.not_unclosed_append hq [] (.inl hopen)

namespace Chunk

/-! ## Well-cut chunks -/

/-- Whether a text can stand behind a quote, up to the quote that closes the literal or up to the
end. -/
def Fits (q : Char) (body : Text) : Bool → Prop
  | true => Sealed q body
  | false => Unclosed q body

/-- Sealed text can stand behind a quote, whether or not the literal is closed. -/
theorem fits_of_sealed {q : Char} {body : Text} (h : Sealed q body) (closed : Bool) :
    Fits q body closed := by
  cases closed with
  | true => exact h
  | false => exact .inl h

/-- No quote inside a literal ends it. -/
theorem Fits.unclosed {q : Char} {body : Text} {closed : Bool} (h : Fits q body closed) :
    Unclosed q body := by
  cases closed with
  | true => exact .inl h
  | false => exact h

/-- `WellCut cs`: a scan can cut a text into the chunks `cs`. -/
inductive WellCut : List Chunk → Prop where
  | nil : WellCut []
  | code {t : Text} {cs : List Chunk} : t ≠ [] → (∀ c ∈ t, isCode c = true) → behind cs = cs →
      WellCut cs → WellCut (.code t :: cs)
  | literal {q : Char} {body : Text} {cs : List Chunk} : isCode q = false → Sealed q body →
      WellCut cs → WellCut (.literal q body true :: cs)
  | unclosed {q : Char} {w : Text} : isCode q = false → Unclosed q w → WellCut [.literal q w false]

/-- Chunks that begin with code go on behind it. -/
theorem behind_code_ne (t : Text) (cs : List Chunk) : behind (.code t :: cs) ≠ .code t :: cs :=
  fun h => List.cons_ne_self (.code t) cs h.symm

/-- Where chunks begin with no code, a character of code is a chunk of its own. -/
theorem consCode_of_behind {cs : List Chunk} (h : behind cs = cs) (c : Char) :
    consCode c cs = .code [c] :: cs := by
  rcases cs with _ | ⟨t | _, cs⟩
  · rfl
  · exact absurd h (behind_code_ne t cs)
  · rfl

/-- One more character of code in front. -/
theorem WellCut.consCode {cs : List Chunk} (h : WellCut cs) {c : Char} (hc : isCode c = true) :
    WellCut (consCode c cs) := by
  have alone : ∀ {ds : List Chunk}, WellCut ds → behind ds = ds → WellCut (.code [c] :: ds) :=
    fun hds hbehind => .code (List.cons_ne_nil c []) (by simpa using hc) hbehind hds
  cases h with
  | nil => exact alone .nil rfl
  | code _ hcode hbehind hcs =>
    exact .code (List.cons_ne_nil c _) (List.forall_mem_cons.mpr ⟨hc, hcode⟩) hbehind hcs
  | literal hq hbody hcs => exact alone (.literal hq hbody hcs) rfl
  | unclosed hq hw => exact alone (.unclosed hq hw) rfl

/-- The chunks of a text are well cut. -/
theorem wellCut_split (t : Text) : WellCut (split t) := by
  induction scanned t with
  | nil => exact .nil
  | code hc _ _ ih =>
    rw [split_cons hc]
    exact ih.consCode hc
  | literal hq hbody _ _ ih =>
    rw [split_literal hq hbody]
    exact .literal hq hbody ih
  | unclosed hq hw _ =>
    rw [split_unclosed hq hw]
    exact .unclosed hq hw

/-- A run of code before a text that begins with no code is its first chunk. -/
theorem split_append {t r : Text} (hne : t ≠ []) (hcode : ∀ c ∈ t, isCode c = true)
    (hr : behind (split r) = split r) : split (t ++ r) = .code t :: split r := by
  induction t with
  | nil => exact absurd rfl hne
  | cons c t ih =>
    obtain ⟨hc, ht⟩ := List.forall_mem_cons.mp hcode
    rw [List.cons_append, split_cons hc]
    by_cases hlast : t = []
    · subst hlast
      exact consCode_of_behind hr c
    · rw [ih hlast ht]
      rfl

/-- Well-cut chunks are the chunks of their text. -/
theorem WellCut.split_join {cs : List Chunk} (h : WellCut cs) : split (join cs) = cs := by
  induction h with
  | nil => rfl
  | @code t cs hne hcode hbehind _ ih =>
    rw [join_cons, text, split_append hne hcode (by rw [ih, hbehind]), ih]
  | @literal q body cs hq hbody _ ih =>
    have htext : join (.literal q body true :: cs) = q :: (body ++ q :: join cs) := by simp [text]
    rw [htext, split_literal hq hbody, ih]
  | @unclosed q w hq hw =>
    have htext : join [.literal q w false] = q :: w := by simp [text]
    rw [htext, split_unclosed hq hw]

/-- **The chunks of a text are the well-cut chunks that make up the text.** -/
theorem split_eq_iff {t : Text} {cs : List Chunk} : split t = cs ↔ join cs = t ∧ WellCut cs := by
  constructor
  · rintro rfl
    exact ⟨join_split t, wellCut_split t⟩
  · rintro ⟨rfl, h⟩
    exact h.split_join

/-- What a chunk of a text is by itself. -/
def Proper : Chunk → Prop
  | .code t => t ≠ [] ∧ ∀ c ∈ t, isCode c = true
  | .literal q body closed => isCode q = false ∧ Fits q body closed

/-- Chunks that are well cut are proper. -/
theorem WellCut.proper {cs : List Chunk} (h : WellCut cs) : ∀ chunk ∈ cs, chunk.Proper := by
  induction h with
  | nil => simp
  | code hne hcode _ _ ih => exact List.forall_mem_cons.mpr ⟨⟨hne, hcode⟩, ih⟩
  | literal hq hbody _ ih => exact List.forall_mem_cons.mpr ⟨⟨hq, hbody⟩, ih⟩
  | unclosed hq hw => exact List.forall_mem_singleton.mpr ⟨hq, hw⟩

/-- A chunk is proper if it is the one chunk of its text. -/
theorem split_text_iff {chunk : Chunk} : split chunk.text = [chunk] ↔ chunk.Proper := by
  have hjoin : join [chunk] = chunk.text := by simp
  constructor
  · intro hsplit
    exact (split_eq_iff.mp hsplit).2.proper chunk List.mem_cons_self
  · intro hproper
    refine split_eq_iff.mpr ⟨hjoin, ?_⟩
    match chunk, hproper with
    | .code t, ⟨hne, hcode⟩ => exact .code hne hcode rfl .nil
    | .literal q body true, ⟨hq, hbody⟩ => exact .literal hq hbody .nil
    | .literal q w false, ⟨hq, hw⟩ => exact .unclosed hq hw

/-! ## Changing chunks one by one -/

/-- A stage that leaves each chunk of a text leaves the text. -/
theorem mapChunks_of_forall {f : Chunk → Text} {t : Text}
    (h : ∀ chunk ∈ split t, f chunk = chunk.text) :
    mapChunks f t = t := by
  rw [mapChunks, List.flatMap_congr h]
  exact join_split t

/-- A literal with a new quote and a new inside, open or closed as before. Code stays as it is. -/
def onLiteral (quote : Char → Char) (inside : Char → Text → Text) : Chunk → Chunk
  | .code t => .code t
  | .literal q body closed => .literal (quote q) (inside q body) closed

variable {quote : Char → Char} {inside : Char → Text → Text}

/-- Chunks that begin with no code begin with none when literals are changed. -/
theorem behind_map_onLiteral {cs : List Chunk} (h : behind cs = cs) :
    behind (cs.map (onLiteral quote inside)) = cs.map (onLiteral quote inside) := by
  rcases cs with _ | ⟨t | _, cs⟩
  · rfl
  · exact absurd h (behind_code_ne t cs)
  · rfl

/-- Chunks stay well cut when their literals are changed, if each literal becomes a proper one. -/
theorem WellCut.map_onLiteral {cs : List Chunk} (h : WellCut cs)
    (hproper : ∀ chunk ∈ cs, (onLiteral quote inside chunk).Proper) :
    WellCut (cs.map (onLiteral quote inside)) := by
  induction h with
  | nil => exact .nil
  | code hne hcode hbehind _ ih =>
    rw [List.forall_mem_cons] at hproper
    exact .code hne hcode (behind_map_onLiteral hbehind) (ih hproper.2)
  | literal _ _ _ ih =>
    rw [List.forall_mem_cons] at hproper
    obtain ⟨⟨hquote, hinside⟩, hlater⟩ := hproper
    exact .literal hquote hinside (ih hlater)
  | unclosed =>
    obtain ⟨hquote, hinside⟩ := hproper _ List.mem_cons_self
    exact .unclosed hquote hinside

/-- **A stage that changes only the literals of a text moves no boundary, exactly if each literal
becomes a proper one.** -/
theorem split_mapChunks_iff {f : Chunk → Text} {t : Text}
    (hf : ∀ chunk ∈ split t, f chunk = (onLiteral quote inside chunk).text) :
    split (mapChunks f t) = (split t).map (onLiteral quote inside) ↔
      ∀ chunk ∈ split t, (onLiteral quote inside chunk).Proper := by
  have htext : join ((split t).map (onLiteral quote inside)) = mapChunks f t := by
    rw [mapChunks, join, List.flatMap_map]
    exact (List.flatMap_congr hf).symm
  constructor
  · intro hsplit
    have hproper := (split_eq_iff.mp hsplit).2.proper
    exact fun chunk hchunk => hproper _ (List.mem_map_of_mem hchunk)
  · intro hproper
    exact split_eq_iff.mpr ⟨htext, (wellCut_split t).map_onLiteral hproper⟩

end Chunk

end ShapedReply
