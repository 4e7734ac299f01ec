import ShapedReply.Loose.Bracket
import ShapedReply.Loose.Fence

/-!
# Fragments of a text

Recovery looks for a document in the fenced blocks and the bracketed spans of a text. A text without
a row of three backticks has no blocks (`fencedBlocks_eq_nil`), one without an opening bracket has
no spans (`spans_eq_nil`), and one that is a single span has no others (`spans_eq_singleton`).

What is found is a part of the text: a block stands between two fences (`mem_fencedBlocks`), and a
span starts with an opening bracket and ends with a closing one (`mem_spans`).
-/

namespace ShapedReply

namespace Fence

/-- The row of backticks that is a fence. -/
def mark : Text := ['\x60', '\x60', '\x60']

/-- Where no fence starts, none is opened. -/
theorem open?_eq_none {t : Text} (h : ¬ mark <+: t) : open? t = none := by
  unfold open?
  split
  · next r => exact absurd ⟨r, rfl⟩ h
  · rfl

/-- A text without fences has no blocks, whatever their heads are. -/
theorem blocksFrom_eq_nil {head? : Text → Option Text}
    (hhead : ∀ t, open? t = none → head? t = none)
    {t : Text} (h : ¬ mark <:+: t) (skip : Nat) : blocksFrom head? skip t = [] := by
  induction t generalizing skip with
  | nil => cases skip <;> rfl
  | cons c r ih =>
    have hr : ¬ mark <:+: r := fun hin => h (hin.trans (List.suffix_cons c r).isInfix)
    cases skip with
    | zero =>
      have hblock : block? head? (c :: r) = none := by
        rw [block?, hhead _ (open?_eq_none fun hin => h hin.isInfix)]
        rfl
      rw [blocksFrom, hblock]
      exact ih hr 0
    | succ skip =>
      rw [blocksFrom]
      exact ih hr skip

/-! ## Blocks -/

/-- A block starts with its mark. -/
theorem open?_eq_some {t r : Text} (h : open? t = some r) : t = mark ++ r := by
  unfold open? at h
  split at h
  · cases h
    rfl
  · cases h

/-- The body of a block ends at the next mark. -/
theorem body?_eq_some {t b r : Text} (h : body? t = some (b, r)) : t = b ++ (mark ++ r) := by
  fun_induction body? t generalizing b with
  | case1 r' =>
    cases h
    rfl
  | case2 c t _ ih =>
    obtain ⟨⟨b', r'⟩, hbody, heq⟩ := Option.map_eq_some_iff.mp h
    cases heq
    rw [List.cons_append, ← ih hbody]
  | case3 => cases h

/-- Behind spaces there is a rest of the text. -/
theorem skipSpaces_suffix (t : Text) : skipSpaces t <:+ t :=
  List.dropWhile_suffix _

/-- Behind a carriage return there is a rest of the text. -/
theorem skipReturn_suffix (t : Text) : skipReturn t <:+ t := by
  unfold skipReturn
  split
  · exact List.suffix_cons _ _
  · exact List.suffix_refl _

/-- Behind a line feed there is a rest of the text. -/
theorem skipFeed_suffix (t : Text) : skipFeed t <:+ t := by
  unfold skipFeed
  split
  · exact List.suffix_cons _ _
  · exact List.suffix_refl _

/-- Behind the tag there is a rest of the text. -/
theorem jsonTag?_suffix {t r : Text} (h : jsonTag? t = some r) : r <:+ t := by
  unfold jsonTag? at h
  split at h
  · next j s o n r' =>
    split at h
    · cases h
      exact ⟨[j, s, o, n], rfl⟩
    · cases h
  · cases h

/-- `Opens head?`: the head of a block starts with a fence. -/
def Opens (head? : Text → Option Text) : Prop :=
  ∀ t r, head? t = some r → ∃ u, t = mark ++ u ∧ r <:+ u

/-- The head with the tag opens a block. -/
theorem opens_jsonHead? : Opens jsonHead? := by
  intro t r h
  obtain ⟨u, hopen, h⟩ := Option.bind_eq_some_iff.mp h
  obtain ⟨v, htag, h⟩ := Option.bind_eq_some_iff.mp h
  cases h
  refine ⟨u, open?_eq_some hopen, ?_⟩
  exact (skipFeed_suffix _).trans <| (skipReturn_suffix _).trans <|
    (skipSpaces_suffix v).trans (jsonTag?_suffix htag)

/-- Any head opens a block. -/
theorem opens_anyHead? : Opens anyHead? := by
  intro t r h
  obtain ⟨u, hopen, h⟩ := Option.bind_eq_some_iff.mp h
  refine ⟨u, open?_eq_some hopen, ?_⟩
  split at h
  · next hline =>
    cases h
    have hr : r <:+ skipReturn (skipSpaces (u.dropWhile isTagPart)) :=
      hline ▸ List.suffix_cons '\n' r
    exact hr.trans <| (skipReturn_suffix _).trans <| (skipSpaces_suffix _).trans <|
      List.dropWhile_suffix _
  · cases h
    exact List.suffix_refl _

/-- A block stands between two fences, with the rest of its head before it. -/
theorem mem_blocksFrom {head? : Text → Option Text} (hhead : Opens head?) {skip : Nat} {t b : Text}
    (h : b ∈ blocksFrom head? skip t) : ∃ w, mark ++ (w ++ (b ++ mark)) <:+: t := by
  induction t generalizing skip with
  | nil => cases skip <;> cases h
  | cons c r ih =>
    have hlater : ∀ {skip}, b ∈ blocksFrom head? skip r →
        ∃ w, mark ++ (w ++ (b ++ mark)) <:+: c :: r := by
      intro skip hb
      obtain ⟨w, hw⟩ := ih hb
      exact ⟨w, hw.trans (List.suffix_cons c r).isInfix⟩
    cases skip with
    | succ skip => exact hlater h
    | zero =>
      rw [blocksFrom] at h
      split at h
      · next body rest hblock =>
        rcases List.mem_cons.mp h with rfl | h
        · obtain ⟨v, hv, hbody⟩ := Option.bind_eq_some_iff.mp hblock
          obtain ⟨u, htext, w, rfl⟩ := hhead _ _ hv
          refine ⟨w, [], rest, ?_⟩
          rw [htext, body?_eq_some hbody]
          simp
        · exact hlater h
      · exact hlater h

/-- Only new items are added. -/
theorem mem_addNew {known more : List Text} {t : Text} (h : t ∈ addNew known more) :
    t ∈ known ∨ t ∈ more := by
  induction more generalizing known with
  | nil => exact .inl h
  | cons m more ih =>
    have hstep :
        addNew known (m :: more) = addNew (if known.contains m then known else known ++ [m]) more :=
      rfl
    rw [hstep] at h
    rcases ih h with hknown | hmore
    · split at hknown
      · exact .inl hknown
      · rcases List.mem_append.mp hknown with hknown | hm
        · exact .inl hknown
        · exact .inr (List.mem_cons.mpr (.inl (List.mem_singleton.mp hm)))
    · exact .inr (List.mem_cons_of_mem m hmore)

end Fence

/-- **A fenced block is what stands between two fences**, behind the rest of the block's head,
without the blanks around it. -/
theorem mem_fencedBlocks {t b : Text} (h : b ∈ fencedBlocks t) :
    ∃ w body, b = Text.trim body ∧ Fence.mark ++ (w ++ (body ++ Fence.mark)) <:+: t := by
  have hblocks : ∀ {head?}, Fence.Opens head? → b ∈ Fence.blocks head? t →
      ∃ w body, b = Text.trim body ∧ Fence.mark ++ (w ++ (body ++ Fence.mark)) <:+: t := by
    intro head? hhead hb
    obtain ⟨body, hbody, rfl⟩ := List.mem_map.mp hb
    obtain ⟨w, hw⟩ := Fence.mem_blocksFrom hhead hbody
    exact ⟨w, body, rfl, hw⟩
  rcases Fence.mem_addNew h with h | h
  · exact hblocks Fence.opens_jsonHead? h
  · exact hblocks Fence.opens_anyHead? h

/-- **A text without fences has no fenced blocks.** -/
theorem fencedBlocks_eq_nil {t : Text} (h : ¬ Fence.mark <:+: t) : fencedBlocks t = [] := by
  have hjson : ∀ t, Fence.open? t = none → Fence.jsonHead? t = none := by
    intro t ht
    rw [Fence.jsonHead?, ht]
    rfl
  have hany : ∀ t, Fence.open? t = none → Fence.anyHead? t = none := by
    intro t ht
    rw [Fence.anyHead?, ht]
    rfl
  rw [fencedBlocks, Fence.blocks, Fence.blocks, Fence.blocksFrom_eq_nil hjson h,
    Fence.blocksFrom_eq_nil hany h]
  rfl

/-- A text without backticks has no fenced blocks. -/
theorem fencedBlocks_of_mark_not_mem {t : Text} (h : '\x60' ∉ t) : fencedBlocks t = [] :=
  fencedBlocks_eq_nil fun hin => h (hin.mem (by decide : '\x60' ∈ Fence.mark))

namespace Bracket

/-- A search for spans passes over what is no opening bracket. -/
theorem spansFrom_append {s : Text} (h : ∀ c ∈ s, isOpener c = false) (quotes : List Char)
    (r : Text) :
    spansFrom quotes 0 (s ++ r) = spansFrom quotes 0 r := by
  induction s with
  | nil => rfl
  | cons c s ih =>
    rw [List.forall_mem_cons] at h
    rw [List.cons_append, spansFrom, h.1, if_neg (by decide), ih h.2]

/-- **A text without opening brackets has no spans.** -/
theorem spans_eq_nil {t : Text} (h : ∀ c ∈ t, isOpener c = false) (quotes : List Char) :
    spans quotes t = [] := by
  have := spansFrom_append h quotes []
  rwa [List.append_nil] at this

/-- Behind text without opening brackets a document starts at its bracket. -/
theorem fromOpener_append_cons {s : Text} (hs : ∀ d ∈ s, isOpener d = false) {c : Char}
    (hc : isOpener c = true) (r : Text) : fromOpener (s ++ c :: r) = c :: r := by
  have hskip : ∀ d ∈ s, (!isOpener d) = true := by
    intro d hd
    rw [hs d hd]
    rfl
  rw [fromOpener, List.dropWhile_append_of_pos hskip, List.dropWhile_cons_of_neg (by simp [hc])]

/-- Where a search for the end of a span ends, it ends with more text behind. -/
theorem closingAt?_append {quotes : List Char} {place : Place} {cs : List Char} {t : Text} {n : Nat}
    (h : closingAt? quotes place cs t = some n) (r : Text) :
    closingAt? quotes place cs (t ++ r) = some n := by
  induction t generalizing place cs n with
  | nil => cases place <;> cases h
  | cons c t ih =>
    -- one more character, and the search behind it
    have hnext : ∀ {place' cs'}, (closingAt? quotes place' cs' t).map (· + 1) = some n →
        (closingAt? quotes place' cs' (t ++ r)).map (· + 1) = some n := by
      intro place' cs' hmap
      obtain ⟨m, hm, rfl⟩ := Option.map_eq_some_iff.mp hmap
      rw [ih hm]
      rfl
    cases place with
    | code =>
      rw [List.cons_append]
      simp only [closingAt?] at h ⊢
      split at h
      · exact hnext h
      · split at h
        · next hcloser =>
          rw [if_pos hcloser]
          split at h
          · cases h
          · split at h
            · cases h
            · next hk =>
              rw [if_neg hk]
              split at h
              · next hempty => rwa [if_pos hempty]
              · next hempty =>
                rw [if_neg hempty]
                exact hnext h
        · next hcloser =>
          rw [if_neg hcloser]
          exact hnext h
    | inside q => exact hnext h
    | escaped q => exact hnext h

/-- A search for spans goes on behind the last span. -/
theorem spansFrom_length (quotes : List Char) (s r : Text) :
    spansFrom quotes s.length (s ++ r) = spansFrom quotes 0 r := by
  induction s with
  | nil => rfl
  | cons c s ih =>
    rw [List.length_cons, List.cons_append, spansFrom, ih]

/-- **A text that is one span, with no brackets around it, has no other spans.** -/
theorem spans_eq_singleton {quotes : List Char} {g g' s : Text} {c : Char}
    (hg : ∀ d ∈ g, isOpener d = false) (hg' : ∀ d ∈ g', isOpener d = false) (hc : isOpener c = true)
    (h : spanLength? quotes (c :: s) = some (c :: s).length) :
    spans quotes (g ++ (c :: s ++ g')) = [c :: s] := by
  have hspan : spanLength? quotes (c :: (s ++ g')) = some (c :: s).length := closingAt?_append h g'
  have htake : (c :: (s ++ g')).take (c :: s).length = c :: s := by
    rw [← List.cons_append, List.take_left]
  have hrest : spansFrom quotes ((c :: s).length - 1) (s ++ g') = [] :=
    (spansFrom_length quotes s g').trans (spans_eq_nil hg' quotes)
  rw [spans, spansFrom_append hg, List.cons_append, spansFrom, if_pos hc, hspan]
  simp only
  rw [htake, hrest]

/-- A span ends with a closing bracket. -/
theorem exists_closer_of_closingAt? {quotes : List Char} {place : Place} {cs : List Char} {t : Text}
    {n : Nat} (h : closingAt? quotes place cs t = some n) :
    ∃ s k, t.take n = s ++ [k] ∧ isCloser k = true := by
  induction t generalizing place cs n with
  | nil => cases place <;> cases h
  | cons c r ih =>
    have hnext : ∀ {place' cs'}, (closingAt? quotes place' cs' r).map (· + 1) = some n →
        ∃ s k, (c :: r).take n = s ++ [k] ∧ isCloser k = true := by
      intro place' cs' hmap
      obtain ⟨m, hm, rfl⟩ := Option.map_eq_some_iff.mp hmap
      obtain ⟨s, k, htake, hk⟩ := ih hm
      exact ⟨c :: s, k, by rw [List.take_succ_cons, htake, List.cons_append], hk⟩
    cases place with
    | code =>
      simp only [closingAt?] at h
      split at h
      · exact hnext h
      · split at h
        · next hcloser =>
          split at h
          · cases h
          · split at h
            · cases h
            · split at h
              · cases h
                exact ⟨[], c, rfl, hcloser⟩
              · exact hnext h
        · exact hnext h
    | inside q => exact hnext h
    | escaped q => exact hnext h

/-- A span starts with an opening bracket and ends with a closing one. -/
theorem mem_spansFrom {quotes : List Char} {skip : Nat} {t s : Text}
    (h : s ∈ spansFrom quotes skip t) :
    (∃ c r, s = c :: r ∧ isOpener c = true) ∧ ∃ r k, s = r ++ [k] ∧ isCloser k = true := by
  induction t generalizing skip with
  | nil => cases skip <;> cases h
  | cons c r ih =>
    cases skip with
    | succ skip => exact ih h
    | zero =>
      rw [spansFrom] at h
      split at h
      · next hopener =>
        split at h
        · next n hspan =>
          rcases List.mem_cons.mp h with rfl | h
          · obtain ⟨u, k, htake, hk⟩ := exists_closer_of_closingAt? hspan
            refine ⟨?_, u, k, htake, hk⟩
            cases n with
            | zero => simp at htake
            | succ n => exact ⟨c, r.take n, List.take_succ_cons, hopener⟩
          · exact ih h
        · exact ih h
      · exact ih h

/-- **A span starts with an opening bracket and ends with a closing one.** -/
theorem mem_spans {quotes : List Char} {t s : Text} (h : s ∈ spans quotes t) :
    (∃ c r, s = c :: r ∧ isOpener c = true) ∧ ∃ r k, s = r ++ [k] ∧ isCloser k = true :=
  mem_spansFrom h

end Bracket

end ShapedReply
