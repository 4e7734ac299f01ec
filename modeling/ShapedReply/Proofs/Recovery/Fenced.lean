import ShapedReply.Proofs.Recovery.FixedPoints
import ShapedReply.Proofs.Spelling.Alphabet

/-!
# A document in a fence

A strict document in a fenced block with the tag `json` is recovered, whatever stands behind the
block.

* `blocksFrom_fenced`: the document is the first block. Before the fence stands no backtick, so the
  search passes on to it, and the block ends at the first fence behind the head, which is the one
  behind the document.
* `isStrict_fenced`: the text as a whole is not strict. A backtick stands only in literals, and
  between the backticks of the fence and the line break behind the tag no literal can end.
* `recover?_fenced`: **the document is recovered as it stands.** The blocks are looked at before a
  text is taken for one that breaks off, so it does not matter if more is to come.
-/

namespace ShapedReply

open Text Spelling

namespace Fence

/-! ## The head of a block -/

/-- A letter in either case. -/
theorem eq_or_eq_of_toLower {c l : Char} (h : c.toLower = l) : c = l ∨ c = l.toUpper := by
  subst h
  by_cases hlow : c.toNat < 128
  · exact forall_of_toNat_lt (P := fun c => c = c.toLower ∨ c = c.toLower.toUpper)
      (by decide) c hlow
  · left
    delta Char.toLower
    rw [dif_neg]
    rintro ⟨-, hle⟩
    exact hlow (Nat.lt_of_le_of_lt hle (by decide))

/-- The tag is known in any case. -/
theorem jsonTag?_append {tag : Text} (htag : tag.map Char.toLower = "json".toList) (r : Text) :
    jsonTag? (tag ++ r) = some r := by
  have hjson : "json".toList = ['j', 's', 'o', 'n'] := by decide
  rw [hjson] at htag
  obtain ⟨j, tag, rfl, hj, htag⟩ := List.map_eq_cons_iff.mp htag
  obtain ⟨s, tag, rfl, hs, htag⟩ := List.map_eq_cons_iff.mp htag
  obtain ⟨o, tag, rfl, ho, htag⟩ := List.map_eq_cons_iff.mp htag
  obtain ⟨n, tag, rfl, hn, htag⟩ := List.map_eq_cons_iff.mp htag
  cases List.map_eq_nil_iff.mp htag
  rcases eq_or_eq_of_toLower hj with rfl | rfl <;> rcases eq_or_eq_of_toLower hs with rfl | rfl <;>
    rcases eq_or_eq_of_toLower ho with rfl | rfl <;> rcases eq_or_eq_of_toLower hn with
      rfl | rfl <;> rfl

/-- A block with the tag starts behind the line break. -/
theorem jsonHead?_append {tag : Text} (htag : tag.map Char.toLower = "json".toList) (r : Text) :
    jsonHead? (mark ++ (tag ++ '\n' :: r)) = some r := by
  have hopen : open? (mark ++ (tag ++ '\n' :: r)) = some (tag ++ '\n' :: r) := rfl
  rw [jsonHead?, hopen, Option.bind_eq_bind, Option.bind_some, jsonTag?_append htag]
  rfl

/-! ## The body of a block -/

/-- A block that ends at once is empty. -/
theorem body?_mark (r : Text) : body? (mark ++ r) = some ([], r) := rfl

/-- Where no fence starts, the body of a block goes on. -/
theorem body?_cons {c : Char} {r : Text} (h : ¬ mark <+: c :: r) :
    body? (c :: r) = (body? r).map fun (b, r) => (c :: b, r) := by
  rw [body?]
  rintro r rfl rfl
  exact h ⟨r, rfl⟩

/-- A fence does not go on over another character. -/
theorem mark_prefix_of_append {t r : Text} {c : Char} (hc : c ≠ '\x60') (h : mark <+: t ++ c :: r) :
    mark <+: t := by
  have hmark : ∀ d ∈ mark, d = '\x60' := by decide
  obtain ⟨u, hu⟩ := h
  rcases List.append_eq_append_iff.mp hu with ⟨m, ht, -⟩ | ⟨m, hm, hcons⟩
  · exact ⟨m, ht.symm⟩
  · rcases List.cons_eq_append_iff.mp hcons with ⟨rfl, -⟩ | ⟨k, rfl, -⟩
    · rw [List.append_nil] at hm
      exact hm ▸ List.prefix_refl mark
    · exact absurd (hmark c (by simp [hm])) hc

/-- **The body of a block goes up to the first fence.** -/
theorem body?_append {t : Text} (ht : ¬ mark <:+: t) {c : Char} (hc : c ≠ '\x60') (r : Text) :
    body? (t ++ c :: (mark ++ r)) = some (t ++ [c], r) := by
  induction t with
  | nil =>
    have hnot : ¬ mark <+: c :: (mark ++ r) := fun h => by
      have := mark_prefix_of_append (t := []) hc h
      exact absurd this (by decide)
    rw [List.nil_append, body?_cons hnot, body?_mark]
    rfl
  | cons d t ih =>
    have hrest : ¬ mark <:+: t := fun h => ht (h.trans (List.suffix_cons d t).isInfix)
    have hnot : ¬ mark <+: d :: (t ++ c :: (mark ++ r)) := by
      intro h
      exact ht (mark_prefix_of_append (t := d :: t) hc h).isInfix
    rw [List.cons_append, body?_cons hnot, ih hrest]
    rfl

/-! ## The first block -/

/-- A search for blocks passes over text without backticks. -/
theorem blocksFrom_append {head? : Text → Option Text} (hhead : Opens head?) {pre : Text}
    (hpre : '\x60' ∉ pre) (t : Text) : blocksFrom head? 0 (pre ++ t) = blocksFrom head? 0 t := by
  induction pre with
  | nil => rfl
  | cons c pre ih =>
    rw [List.mem_cons, not_or] at hpre
    have hnone : head? (c :: (pre ++ t)) = none := by
      rw [Option.eq_none_iff_forall_ne_some]
      intro r hr
      obtain ⟨u, hu, -⟩ := hhead _ r hr
      exact hpre.1 (List.cons.inj hu).1.symm
    have hblock : block? head? (c :: (pre ++ t)) = none := by
      rw [block?, hnone]
      rfl
    rw [List.cons_append, blocksFrom, hblock]
    exact ih hpre.2

/-- What is known first stays first. -/
theorem exists_addNew_cons (b : Text) (known more : List Text) :
    ∃ rest, addNew (b :: known) more = b :: rest := by
  induction more generalizing known with
  | nil => exact ⟨known, rfl⟩
  | cons m more ih =>
    have hstep : addNew (b :: known) (m :: more) =
        addNew (if (b :: known).contains m then b :: known else b :: (known ++ [m])) more := rfl
    rw [hstep]
    split
    · exact ih known
    · exact ih (known ++ [m])

end Fence

open Fence

variable {pre tag t : Text}

/-- **A document behind a tagged fence is the first block.** -/
theorem blocksFrom_fenced (hpre : '\x60' ∉ pre) (htag : tag.map Char.toLower = "json".toList)
    (hfence : ¬ mark <:+: t) (post : Text) :
    ∃ rest, blocksFrom jsonHead? 0 (pre ++ (mark ++
      (tag ++ '\n' :: (t ++ '\n' :: (mark ++ post))))) =
      (t ++ ['\n']) :: rest := by
  have hblock : block? jsonHead? (mark ++ (tag ++ '\n' :: (t ++ '\n' :: (mark ++ post)))) =
      some (t ++ ['\n'], post) := by
    rw [block?, jsonHead?_append htag, Option.bind_eq_bind, Option.bind_some,
      body?_append hfence (by decide)]
  rw [blocksFrom_append opens_jsonHead? hpre]
  rw [mark, List.cons_append] at hblock ⊢
  rw [blocksFrom, hblock]
  exact ⟨_, rfl⟩

/-- The first of the fenced blocks is the document. -/
theorem fencedBlocks_fenced (hpre : '\x60' ∉ pre) (htag : tag.map Char.toLower = "json".toList)
    (hfence : ¬ mark <:+: t) (htrim : trim (t ++ ['\n']) = t) (post : Text) :
    ∃ rest, fencedBlocks (pre ++ (mark ++ (tag ++ '\n' :: (t ++ '\n' :: (mark ++ post))))) =
      t :: rest := by
  obtain ⟨rest, hrest⟩ := blocksFrom_fenced hpre htag hfence post
  rw [fencedBlocks, blocks, hrest, List.map_cons, htrim]
  exact exists_addNew_cons t _ _

/-! ## The text as a whole -/

/-- Trimming leaves the fences and what stands between them. -/
theorem trim_fenced (pre tag t post : Text) :
    trim (pre ++ (mark ++ (tag ++ '\n' :: (t ++ '\n' :: (mark ++ post))))) =
      trimStart pre ++ '\x60' :: (('\x60' :: '\x60' :: tag) ++
        '\n' :: (t ++ '\n' :: '\x60' :: trimEnd ('\x60' :: '\x60' :: post))) := by
  have hend := trimEnd_append (c := '\x60') (by decide)
    (trimStart pre ++ (mark ++ (tag ++ '\n' :: (t ++ ['\n'])))) ('\x60' :: '\x60' :: post)
  rw [trim, mark, List.cons_append, trimStart_append_cons (by decide)]
  simpa [mark] using hend

/-- **A text with a tagged fence is not strict.** -/
theorem isStrict_fenced (htag : tag.map Char.toLower = "json".toList) (pre t post : Text) :
    isStrict (trim (pre ++ (mark ++ (tag ++ '\n' :: (t ++ '\n' :: (mark ++ post)))))) = false := by
  have hquote : '"' ∉ '\x60' :: '\x60' :: tag := by
    intro hmem
    have htick : '"' ≠ '\x60' := by decide
    have := List.mem_map_of_mem (f := Char.toLower)
      (List.mem_of_ne_of_mem htick (List.mem_of_ne_of_mem htick hmem))
    rw [htag] at this
    exact absurd this (by decide)
  rw [← Bool.not_eq_true]
  intro hstrict
  obtain ⟨U, hU⟩ := exists_tree_of_trim hstrict (trim_trim _)
  exact hquote <| (neat_text U).quote_mem (hU.symm.trans (trim_fenced pre tag t post)) (by decide)
    (by decide) (by decide)

/-- **A strict document in a block with the tag `json` is recovered as it stands**, whether the text
is whole or still coming in: a document of any kind without blanks around it and without a fence in
it, in a block with no backtick before it and with any text behind it. -/
theorem recover?_fenced {post : Text} (hpre : '\x60' ∉ pre)
    (htag : tag.map Char.toLower = "json".toList) (hstrict : isStrict t = true) (htrim : trim t = t)
    (hfence : ¬ mark <:+: t) (done : Bool) :
    recover? (pre ++ mark ++ tag ++ '\n' :: t ++ '\n' :: mark ++ post) done = some t := by
  have htext : pre ++ mark ++ tag ++ '\n' :: t ++ '\n' :: mark ++ post =
      pre ++ (mark ++ (tag ++ '\n' :: (t ++ '\n' :: (mark ++ post)))) := by simp
  have hfeed : trim (t ++ ['\n']) = t := by
    obtain ⟨T, rfl⟩ := exists_tree_of_trim hstrict htrim
    exact trim_tree T (g := []) (by decide) (by decide)
  obtain ⟨rest, hblocks⟩ := fencedBlocks_fenced hpre htag hfence hfeed post
  rw [htext, recover?, isStrict_fenced htag, hblocks, List.find?_cons_of_pos hstrict]
  rfl

/-- A document with a quote, a brace and backticks in its string. -/
def tickNote : Text := "\x7b\"a\": \"\\\"\x7d\x60\x60\"\x7d".toList

/-- It is recovered behind half of another document and before another block. -/
theorem recover?_tickNote :
    isStrict tickNote = true ∧ "JsOn".toList.map Char.toLower = "json".toList ∧
      ∀ done, recover? ("Not \x7b\"b: ".toList ++ mark ++ "JsOn".toList ++ '\n' :: tickNote ++
        '\n' :: mark ++ "\n\x60\x60\x60json\n1\n\x60\x60\x60 [".toList) done = some tickNote := by
  have hpre : '\x60' ∉ "Not \x7b\"b: ".toList := by decide +kernel
  have htag : "JsOn".toList.map Char.toLower = "json".toList := by decide +kernel
  have hstrict : isStrict tickNote = true := by decide +kernel
  have htrim : trim tickNote = tickNote := by decide +kernel
  have hfence : ¬ mark <:+: tickNote := by decide +kernel
  exact ⟨hstrict, htag, recover?_fenced hpre htag hstrict htrim hfence⟩

end ShapedReply
