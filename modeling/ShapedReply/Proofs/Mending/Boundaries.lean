import ShapedReply.Proofs.Mending.BareKeys
import ShapedReply.Proofs.Mending.Uncommented

/-!
# Stages and the boundaries of literals

What one stage writes, the next one cuts into chunks again. Three stages write literals: bare keys
and single-quoted literals get double quotes, and raw control characters are escaped. Each of them
has to leave the boundaries between code and literals where they are.

* `quoting_keeps_boundaries`: **the two stages that quote move no boundary, on any text.** Key
  quoting cuts code at its bare keys, and both stages are done once.
* `escaping_keeps_literals`: **escaping control characters moves no boundary, and leaves no control
  character in a literal, exactly on the texts whose literals are still literals without their raw
  carriage returns.**

Escapes are written in place of control characters, and a backslash before one takes the backslash
of the escape. But a carriage return is dropped, and a backslash before it is left to the next
character. If this is the quote that ends the literal, the literal goes on behind it
(`escaping_takes_closing_quote`).
-/

namespace ShapedReply

open Text Mend Spelling Chunk

/-! ## Single-quoted literals -/

/-- A chunk with double quotes. -/
def Chunk.requoted : Chunk → Chunk :=
  onLiteral (fun _ => '"') fun q body => if q = '\'' then requoteBody body else body

/-- The stage that changes quotes moves no boundary. -/
theorem split_requote (t : Text) : split (requote t) = (split t).map requoted := by
  have hproper := (wellCut_split t).proper
  refine (split_mapChunks_iff ?_).mpr ?_
  · intro chunk hchunk
    cases chunk with
    | code => rfl
    | literal q body closed => rcases eq_quote (hproper _ hchunk).1 with rfl | rfl <;> rfl
  · intro chunk hchunk
    cases chunk with
    | code => exact hproper _ hchunk
    | literal q body closed =>
      obtain ⟨hq, hfits⟩ := hproper _ hchunk
      refine ⟨rfl, ?_⟩
      rcases eq_quote hq with rfl | rfl
      · exact hfits
      · cases closed with
        | true => exact sealed_requoteBody hfits
        | false => exact unclosed_requoteBody hfits

/-- A text with double quotes only is left as it is. -/
theorem requote_requote (t : Text) : requote (requote t) = requote t := by
  apply mapChunks_of_forall
  intro chunk hchunk
  rw [split_requote, List.mem_map] at hchunk
  obtain ⟨original, -, rfl⟩ := hchunk
  cases original <;> rfl

/-! ## Bare keys -/

/-- What key quoting makes of a chunk: code is cut at its bare keys, and a literal stays as it
is. -/
def KeysQuoted : Chunk → List Chunk → Prop
  | .code t, pieces => KeysCut t pieces
  | chunk, pieces => pieces = [chunk]

/-- No piece holds a bare key. -/
theorem KeysCut.not_holdsKey {t : Text} {pieces : List Chunk} (h : KeysCut t pieces) :
    ∀ code, .code code ∈ pieces → ¬ HoldsKey code := by
  induction h with
  | none _ hkeys => simpa using hkeys
  | key _ hkeys _ _ _ ih => simpa using ⟨hkeys, ih⟩

/-- The pieces of code are well cut, before chunks that begin with no code. -/
theorem KeysCut.wellCut_append {t : Text} {pieces cs : List Chunk} (h : KeysCut t pieces)
    (hcode : ∀ c ∈ t, isCode c = true) (hbehind : behind cs = cs) (hcs : WellCut cs) :
    WellCut (pieces ++ cs) := by
  induction h with
  | none hne _ => exact .code hne hcode hbehind hcs
  | @key before name after pieces hbefore _ hname _ _ ih =>
    rw [List.forall_mem_append, List.forall_mem_append] at hcode
    have hne : before ≠ [] := by
      rintro rfl
      exact not_awaitsKey_nil hbefore
    exact .code hne hcode.1 rfl (.literal rfl (sealed_name hname) (ih hcode.2.2))

/-- What is made of chunks that begin with no code begins with none. -/
theorem behind_flatten {cs : List Chunk} {pieces : List (List Chunk)}
    (h : List.Forall₂ KeysQuoted cs pieces) (hbehind : behind cs = cs) :
    behind pieces.flatten = pieces.flatten := by
  cases h with
  | nil => rfl
  | @cons chunk piece cs pieces hpiece _ =>
    cases chunk with
    | code t => exact absurd hbehind (behind_code_ne t cs)
    | literal q body closed =>
      cases hpiece
      rfl

/-- Key quoting makes well-cut chunks of well-cut chunks. -/
theorem exists_keysQuoted {cs : List Chunk} (h : WellCut cs) :
    ∃ pieces, List.Forall₂ KeysQuoted cs pieces ∧ WellCut pieces.flatten ∧
      join pieces.flatten = cs.flatMap (onCode (quoteKeysFrom .elsewhere)) := by
  induction h with
  | nil => exact ⟨[], .nil, .nil, rfl⟩
  | @code t cs hne hcode hbehind _ ih =>
    obtain ⟨pieces, hpieces, hcut, hjoin⟩ := ih
    obtain ⟨piece, hpiece, htext⟩ := exists_keysCut hne hcode
    refine ⟨piece :: pieces, .cons hpiece hpieces, ?_, ?_⟩
    · exact hpiece.wellCut_append hcode (behind_flatten hpieces hbehind) hcut
    · rw [List.flatten_cons, join_append, htext, hjoin, List.flatMap_cons]
      rfl
  | literal hq hbody _ ih =>
    obtain ⟨pieces, hpieces, hcut, hjoin⟩ := ih
    refine ⟨_ :: pieces, .cons rfl hpieces, .literal hq hbody hcut, ?_⟩
    rw [List.flatten_cons, join_append, hjoin, List.flatMap_cons]
    simp [onCode]
  | unclosed hq hw =>
    refine ⟨[_], .cons rfl .nil, .unclosed hq hw, ?_⟩
    simp [onCode]

/-- Key quoting cuts the code of a text at its bare keys and moves no other boundary. -/
theorem exists_split_quoteKeys (t : Text) :
    ∃ pieces, List.Forall₂ KeysQuoted (split t) pieces ∧ split (quoteKeys t) = pieces.flatten := by
  obtain ⟨pieces, hpieces, hcut, hjoin⟩ := exists_keysQuoted (wellCut_split t)
  refine ⟨pieces, hpieces, split_eq_iff.mpr ⟨?_, hcut⟩⟩
  rw [hjoin, quoteKeys, mapCode_eq_mapChunks, mapChunks]

/-- No bare key is left in what key quoting makes of chunks. -/
theorem not_holdsKey_of_mem_flatten {cs : List Chunk} {pieces : List (List Chunk)}
    (h : List.Forall₂ KeysQuoted cs pieces) {code : Text} (hmem : .code code ∈ pieces.flatten) :
    ¬ HoldsKey code := by
  induction h with
  | nil => cases hmem
  | @cons chunk piece cs pieces hpiece _ ih =>
    rw [List.flatten_cons, List.mem_append] at hmem
    rcases hmem with hmem | hmem
    · cases chunk with
      | code t => exact KeysCut.not_holdsKey hpiece code hmem
      | literal q body closed =>
        cases hpiece
        cases List.mem_singleton.mp hmem
    · exact ih hmem

/-- A text with quotes around its keys is left as it is. -/
theorem quoteKeys_quoteKeys (t : Text) : quoteKeys (quoteKeys t) = quoteKeys t := by
  obtain ⟨pieces, hpieces, hsplit⟩ := exists_split_quoteKeys t
  have hagain :
      quoteKeys (quoteKeys t) = mapChunks (onCode (quoteKeysFrom .elsewhere)) (quoteKeys t) :=
    mapCode_eq_mapChunks _ _
  rw [hagain]
  apply mapChunks_of_forall
  intro chunk hchunk
  cases chunk with
  | literal => rfl
  | code code =>
    obtain ⟨hne, hcode⟩ := (wellCut_split _).proper _ hchunk
    rw [hsplit] at hchunk
    exact quoteKeysFrom_of_not_holdsKey hne hcode (not_holdsKey_of_mem_flatten hpieces hchunk)

/-- **Quoting moves no boundary of a literal.** The chunks of a text in a row are the text. When
quotes are changed, code and double-quoted literals stay, and a single-quoted literal becomes a
double-quoted one, open or closed as before. When keys are quoted, literals stay, and code is cut at
its bare keys, each of which becomes a closed literal. What has been quoted once is quoted. -/
theorem quoting_keeps_boundaries (t : Text) :
    join (split t) = t ∧
      split (requote t) = (split t).map requoted ∧
      (∃ pieces, List.Forall₂ KeysQuoted (split t) pieces ∧ split (quoteKeys t) = pieces.flatten) ∧
      requote (requote t) = requote t ∧ quoteKeys (quoteKeys t) = quoteKeys t :=
  ⟨join_split t, split_requote t, exists_split_quoteKeys t, requote_requote t,
    quoteKeys_quoteKeys t⟩

/-! ## Control characters -/

/-- A chunk without raw control characters in its literal. -/
def Chunk.withoutControls : Chunk → Chunk :=
  onLiteral id fun _ body => body.flatMap escapeControl

/-- A chunk without raw carriage returns in its literal. -/
def Chunk.withoutReturns : Chunk → Chunk :=
  onLiteral id fun _ body => body.filter (· ≠ '\r')

/-- What is made of a character is no control character. -/
theorem le_of_mem_escapeControl {c d : Char} (h : d ∈ escapeControl c) : 0x20 ≤ d.toNat := by
  by_cases hreturn : c = '\r'
  · subst hreturn
    cases h
  rcases escapeControl_cases hreturn with ⟨hc, -⟩ | ⟨hc, -⟩ | ⟨hc, hlow⟩ | ⟨hc, hle⟩
  · rw [hc] at h
    revert d
    decide
  · rw [hc] at h
    revert d
    decide
  · obtain ⟨a, b, e, f, hunit, hhex⟩ := unitEscape_eq c.toNat hlow
    rw [hc, hunit, List.mem_cons, List.mem_cons] at h
    rcases h with rfl | rfl | hd
    · decide
    · decide
    · exact (hexDigits_ne d (mem_hexDigits_of_unit hhex d hd)).2.2.2
  · rw [hc, List.mem_singleton] at h
    exact h ▸ hle

/-- What escaping leaves in a literal is no control character. -/
theorem le_of_mem_withoutControls {q : Char} (hq : isCode q = false) {body : Text} {closed : Bool} :
    ∀ c ∈ (withoutControls (.literal q body closed)).text, 0x20 ≤ c.toNat := by
  have hquote : 0x20 ≤ q.toNat := by
    rcases eq_quote hq with rfl | rfl <;> decide
  have hbody : ∀ c ∈ body.flatMap escapeControl, 0x20 ≤ c.toNat := by
    intro c hc
    obtain ⟨d, -, hd⟩ := List.mem_flatMap.mp hc
    exact le_of_mem_escapeControl hd
  have hend : ∀ c ∈ (if closed then [q] else []), 0x20 ≤ c.toNat := by
    cases closed with
    | true => simpa using hquote
    | false => simp
  exact List.forall_mem_cons.mpr ⟨hquote, List.forall_mem_append.mpr ⟨hbody, hend⟩⟩

/-- Carriage returns are dropped before the rest is escaped. -/
theorem flatMap_escapeControl_filter (w : Text) :
    (w.filter (· ≠ '\r')).flatMap escapeControl = w.flatMap escapeControl := by
  induction w with
  | nil => rfl
  | cons c w ih =>
    by_cases hc : c = '\r'
    · subst hc
      exact ih
    · rw [List.filter_cons_of_pos (by simpa using hc), List.flatMap_cons, ih, List.flatMap_cons]

/-- What stands behind a quote can stand there when it is escaped, if no carriage return stands
behind a backslash in it. -/
theorem fits_flatMap_escapeControl {q : Char} (hq : isCode q = false) {w : Text} {closed : Bool}
    (h : Fits q w closed) (hreturn : escapesReturn w = false) :
    Fits q (w.flatMap escapeControl) closed := by
  cases closed with
  | true => exact sealed_flatMap_escapeControl hq h hreturn
  | false => exact unclosed_flatMap_escapeControl hq h hreturn

/-- Where there is no carriage return, escaping neither closes a literal nor keeps it from being
closed. -/
theorem fits_flatMap_escapeControl_iff {q : Char} (hq : isCode q = false) {w : Text} (hw : '\r' ∉ w)
    (closed : Bool) : Fits q (w.flatMap escapeControl) closed ↔ Fits q w closed := by
  have hsealed : ∀ {v : Text}, Sealed q v → v <+: w → Sealed q (v.flatMap escapeControl) :=
    fun hv hpre => sealed_flatMap_escapeControl hq hv
      (escapesReturn_of_not_mem fun hmem => hw (hpre.mem hmem))
  refine ⟨fun h => ?_, fun h => fits_flatMap_escapeControl hq h (escapesReturn_of_not_mem hw)⟩
  rcases sealed_or_unclosed (ne_backslash hq) w with ⟨v, r, hv, rfl⟩ | hv | ⟨v, hv, rfl⟩
  · -- a quote that closes the literal early still does
    have hopen := h.unclosed
    rw [List.flatMap_append, List.flatMap_cons, escapeControl_quote hq] at hopen
    exact absurd hopen ((hsealed hv (List.prefix_append _ _)).not_unclosed_append hq _)
  · exact fits_of_sealed hv closed
  · cases closed with
    | false => exact .inr ⟨v, hv, rfl⟩
    | true =>
      -- a backslash at the end is still there
      have hlast : (v ++ ['\\']).flatMap escapeControl = v.flatMap escapeControl ++ ['\\'] :=
        List.flatMap_append
      exact absurd (hlast ▸ h) ((hsealed hv (List.prefix_append _ _)).not_sealed_concat hq)

/-- Escaping control characters leaves a proper chunk exactly if dropping carriage returns does. -/
theorem proper_withoutControls_iff {chunk : Chunk} (h : chunk.Proper) :
    chunk.withoutControls.Proper ↔ chunk.withoutReturns.Proper := by
  cases chunk with
  | code => exact Iff.rfl
  | literal q body closed =>
    have hnone : '\r' ∉ body.filter (· ≠ '\r') := by simp
    have hfits := fits_flatMap_escapeControl_iff h.1 hnone closed
    rw [flatMap_escapeControl_filter] at hfits
    exact and_congr_right fun _ => hfits

/-- Escaping control characters moves no boundary exactly if it leaves each chunk a proper one. -/
theorem split_escapeControls_iff {t : Text} :
    split (escapeControls t) = (split t).map withoutControls ↔
      ∀ chunk ∈ split t, chunk.withoutControls.Proper := by
  refine split_mapChunks_iff fun chunk hchunk => ?_
  cases chunk with
  | code => rfl
  | literal q body closed =>
    obtain ⟨hq, -⟩ := (wellCut_split t).proper _ hchunk
    cases closed <;> simp [escapeChunk, text, onLiteral, escapeControl_quote hq]

/-- Without a carriage return behind a backslash, the chunks of a text stay proper. -/
theorem proper_withoutControls {t : Text} (h : hasEscapedReturn t = false) :
    ∀ chunk ∈ split t, chunk.withoutControls.Proper := by
  rw [hasEscapedReturn, List.any_eq_false] at h
  intro chunk hchunk
  have hproper := (wellCut_split t).proper chunk hchunk
  cases chunk with
  | code => exact hproper
  | literal q body closed =>
    have hreturn : escapesReturn body = false := by simpa [Chunk.escapesReturn] using h _ hchunk
    exact ⟨hproper.1, fits_flatMap_escapeControl hproper.1 hproper.2 hreturn⟩

/-- `LiteralsKept t`: when the control characters of `t` are escaped, code stays, each literal keeps
its quote and is open or closed as before, and no control character is left in a literal. -/
def LiteralsKept (t : Text) : Prop :=
  split (escapeControls t) = (split t).map withoutControls ∧
    ∀ chunk ∈ split (escapeControls t), chunk.isLiteral = true → ∀ c ∈ chunk.text, 0x20 ≤ c.toNat

/-- Literals are kept exactly if each chunk is proper without its control characters. -/
theorem literalsKept_iff {t : Text} :
    LiteralsKept t ↔ ∀ chunk ∈ split t, chunk.withoutControls.Proper := by
  constructor
  · exact fun h => split_escapeControls_iff.mp h.1
  · intro hproper
    have hsplit := split_escapeControls_iff.mpr hproper
    refine ⟨hsplit, ?_⟩
    rw [hsplit]
    intro chunk hchunk hliteral
    obtain ⟨original, horiginal, rfl⟩ := List.mem_map.mp hchunk
    cases original with
    | code => cases hliteral
    | literal q body closed =>
      obtain ⟨hq, -⟩ := (wellCut_split t).proper _ horiginal
      exact le_of_mem_withoutControls hq

/-- **Escaping control characters keeps the literals of a text exactly if each of them is still one
literal without its raw carriage returns.** This is so in particular when no carriage return stands
behind a backslash in a literal. -/
theorem escaping_keeps_literals (t : Text) :
    (LiteralsKept t ↔
      ∀ chunk ∈ split t, split chunk.withoutReturns.text = [chunk.withoutReturns]) ∧
      (hasEscapedReturn t = false → LiteralsKept t) := by
  refine ⟨?_, fun h => literalsKept_iff.mpr (proper_withoutControls h)⟩
  rw [literalsKept_iff]
  refine forall₂_congr fun chunk hchunk => ?_
  rw [split_text_iff, proper_withoutControls_iff ((wellCut_split t).proper chunk hchunk)]

/-- A line feed behind a backslash, an escaped quote, a raw carriage return and a tab, and a literal
that breaks off at a backslash. -/
def controlNote : Text := "[\"a\\\n\\\"\", 'b\r\t', \"\x01\\".toList

/-- A carriage return behind a backslash that another character can take. -/
def returnNote : Text := "[\"a\\\rb\"]".toList

/-- A text with control characters, and one with an escaped carriage return. -/
theorem escaping_keeps_literals_notes :
    (hasEscapedReturn controlNote = false ∧ LiteralsKept controlNote) ∧
      (hasEscapedReturn returnNote = true ∧
        (∀ chunk ∈ split returnNote, split chunk.withoutReturns.text = [chunk.withoutReturns]) ∧
        LiteralsKept returnNote) := by
  have hcontrol : hasEscapedReturn controlNote = false := by decide +kernel
  have hreturn : ∀ chunk ∈ split returnNote,
      split chunk.withoutReturns.text = [chunk.withoutReturns] := by
    decide +kernel
  exact ⟨⟨hcontrol, (escaping_keeps_literals controlNote).2 hcontrol⟩, by decide +kernel, hreturn,
    (escaping_keeps_literals returnNote).1.mpr hreturn⟩

/-- Behind a backslash a carriage return goes and leaves the backslash to the quote that closes the
literal. So a closed literal is open, or it goes on over the line feed behind it up to the next
quote. -/
theorem escaping_takes_closing_quote :
    split "\"a\\\r\"".toList = [.literal '"' "a\\\r".toList true] ∧
      split (escapeControls "\"a\\\r\"".toList) = [.literal '"' "a\\\"".toList false] ∧
      split "\"a\\\r\"\n\"b\"".toList =
        [.literal '"' "a\\\r".toList true, .code "\n".toList, .literal '"' "b".toList true] ∧
      split (escapeControls "\"a\\\r\"\n\"b\"".toList) =
        [.literal '"' "a\\\"\n".toList true, .code "b".toList, .literal '"' [] false] := by
  decide +kernel

end ShapedReply
