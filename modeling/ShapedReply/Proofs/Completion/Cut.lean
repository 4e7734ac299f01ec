import ShapedReply.Proofs.Completion.Outline
import ShapedReply.Proofs.Completion.Truncation

/-!
# Where a document breaks off

A proper beginning of a container's text ends inside one innermost container: before its first
entry, inside an entry, or between two entries. `Tree.Cut` lists these places, and `exists_cut`
finds the place for every beginning, by recursion over the tree.

What stands around the innermost container is described by `Within`: the text before it and the
closing brackets that are still to come. A truncation inside grows outwards
(`Within.exists_truncated`): **what truncates the innermost container, put back between the text
before it and the missing brackets, is a tree that truncates the whole.**
-/

namespace ShapedReply.Spelling

open Text

variable {k : Container}

/-! ## Around a tree -/

/-- `Within R A cs T`: inside the tree `R` the tree `T` stands right behind the text `A`, and `cs`
are the brackets that close what `A` leaves open, innermost first. -/
inductive Within (R : Tree) : Text → List Char → Tree → Prop where
  | root : Within R [] [] R
  | item {A : Text} {cs : List Char} {k : Container} {before : List (Entry k)} {es : Entries k} :
      Within R A cs (.filled k (.prepend before es)) →
      Within R (A ++ k.opener :: (leadText before ++ es.first.head.text .strict)) (k.closer :: cs)
        es.first.item

/-- A gap in which nothing stands. -/
def Gap.tight : Gap := ⟨[], blank_nil, []⟩

variable {R T : Tree} {A : Text} {cs : List Char}

/-- What holds all over a tree holds all over a tree inside it. -/
theorem Within.every {P : Tree → Prop} (h : Within R A cs T) (hR : R.Every P) : T.Every P := by
  induction h with
  | root => exact hR
  | @item A cs k before es _ ih =>
    rw [Tree.Every] at ih
    exact ih.2.first before

/-- Names of truncated entries are names of the entries, in their order. -/
theorem TruncatedEntries.names_beginning {k : Container} {es : Entries k} {p : Text}
    {ps : List (String × Value)} : TruncatedEntries es p ps →
      Table.names ps <+: Table.names es.pairs
  | .kept h => by
    rw [Entries.pairs, Table.names_cons, Table.names_cons, List.cons_prefix_cons]
    exact ⟨rfl, h.names_beginning⟩
  | .missing _ => List.nil_prefix
  | .cut _ => by
    obtain ⟨ps, hps⟩ := es.exists_pairs_eq_cons
    rw [hps, Table.names_cons, Table.names_cons]
    exact List.prefix_append [es.first.head.name] (Table.names ps)
  | .ended _ => by
    obtain ⟨ps, hps⟩ := es.exists_pairs_eq_cons
    rw [hps, Table.names_cons, Table.names_cons]
    exact List.prefix_append [es.first.pair.1] (Table.names ps)
  | .unstarted hhead _ => by
    obtain ⟨ps, hps⟩ := es.exists_pairs_eq_cons
    rw [hps, Table.names_cons, Table.names_cons, Entry.pair, hhead]
    exact List.prefix_append [_] (Table.names ps)

/-- A container whose entries are a truncation, read as it stands, is a truncation. -/
theorem truncated_filled {before : List (Entry k)} {es es' : Entries k} {p : Text}
    {ps : List (String × Value)} (hkeys : (Tree.filled k (.prepend before es)).HasDistinctKeys)
    (h : TruncatedEntries es p ps) (hpairs : es'.pairs = before.map Entry.pair ++ ps) :
    Truncated (.filled k (.prepend before es)) (k.opener :: (leadText before ++ p))
      (Tree.filled k es').value := by
  have hentries := h.prepend before
  have hnodup : k = .map → (Table.names (before.map Entry.pair ++ ps)).Nodup := by
    rintro rfl
    exact hkeys.sublist hentries.names_beginning.sublist
  rw [Tree.value, hpairs, Container.value_eq_holding hnodup]
  exact .filled hentries

/-- The entries `before` with one more behind them. -/
def oneMore (before : List (Entry k)) (head : Head k) (item : Tree) : Tree :=
  .filled k (.prepend before (.last head item .tight none))

/-- The text of a container that ends with one more entry. -/
theorem text_oneMore (before : List (Entry k)) (head : Head k) (item : Tree) :
    (oneMore before head item).text .strict =
      k.opener :: (leadText before ++ (head.text .strict ++
        (item.text .strict ++ [k.closer]))) := by
  rw [oneMore, Tree.text, Entries.text_prepend, Entries.text]
  simp [Pen.strict, Gap.tight]

/-- A container that breaks off inside an entry may end with what that entry is completed to. -/
theorem truncated_oneMore {before : List (Entry k)} {es : Entries k} {head : Head k} {item : Tree}
    {p : Text} (hkeys : (Tree.filled k (.prepend before es)).HasDistinctKeys)
    (h : TruncatedEntries es p [(head.name, item.value)]) :
    Truncated (.filled k (.prepend before es)) (k.opener :: (leadText before ++ p))
      (oneMore before head item).value := by
  apply truncated_filled hkeys h
  rw [Entries.pairs_prepend, Entries.pairs]

/-- **A truncation inside a tree grows to a truncation of the tree**, by the text before it and the
missing brackets behind it. -/
theorem Within.exists_truncated (h : Within R A cs T) (hkeys : R.Every Tree.HasDistinctKeys)
    {T' : Tree} {q : Text} (htruncated : Truncated T q T'.value) :
    ∃ R' : Tree, R'.text .strict = A ++ (T'.text .strict ++ cs) ∧
      Truncated R (A ++ q) R'.value := by
  induction h generalizing T' q with
  | root => exact ⟨T', by simp, htruncated⟩
  | @item A cs k before es hwithin ih =>
    have houter : Truncated (.filled k (.prepend before es))
        (k.opener :: (leadText before ++ (es.first.head.text .strict ++ q)))
        (oneMore before es.first.head T').value :=
      truncated_oneMore (hwithin.every hkeys).self (.cut htruncated)
    obtain ⟨R', htext, hR'⟩ := ih houter
    refine ⟨R', ?_, ?_⟩
    · rw [htext, text_oneMore]
      simp
    · simpa using hR'

/-! ## The places -/

/-- A beginning of two texts in a row ends in the first one, or somewhere in the second one. -/
theorem proper_or_behind_of_prefix_append {p a b : Text} (h : p <+: a ++ b) :
    (p <+: a ∧ p ≠ a) ∨ ∃ q, p = a ++ q ∧ q <+: b := by
  rcases List.prefix_or_prefix_of_prefix h (List.prefix_append a b) with hp | ⟨q, rfl⟩
  · by_cases heq : p = a
    · exact .inr ⟨[], by simp [heq], List.nil_prefix⟩
    · exact .inl ⟨hp, heq⟩
  · exact .inr ⟨q, rfl, (List.prefix_append_right_inj a).mp h⟩

/-- The blanks with which an entry begins. -/
def Head.before : Head k → Gap
  | .item before => before
  | .member before _ _ _ => before

/-- How a text can end before the value of an entry: in the blanks before it, in its key, between
its key and the colon, or behind the colon. -/
inductive Head.Cut : {k : Container} → Head k → Text → Prop where
  | before {k : Container} {head : Head k} {g : Text} : g <+: head.before.strict → head.Cut g
  | key {before beforeColon afterColon : Gap} {key : Key} {w : Text} : w <+: key.quoted.strictBody →
      (Head.member before key beforeColon afterColon).Cut (before.strict ++ '"' :: w)
  | named {before beforeColon afterColon : Gap} {key : Key} {g : Text} : g <+: beforeColon.strict →
      (Head.member before key beforeColon afterColon).Cut
        (before.strict ++ (Pen.strict.key key ++ g))
  | colon {before beforeColon afterColon : Gap} {key : Key} {g : Text} : g <+: afterColon.strict →
      (Head.member before key beforeColon afterColon).Cut
        (before.strict ++ (Pen.strict.key key ++ (beforeColon.strict ++ ':' :: g)))

/-- How a text can end in an entry, but not inside a container there: before the value, in a word,
in a string, or behind the value. -/
inductive Entry.Cut (e : Entry k) : Text → Prop where
  | head {p : Text} : e.head.Cut p → e.Cut p
  | word {w : Word} {p : Text} : e.item = .word w → p <+: w.text → p ≠ [] →
      e.Cut (e.head.text .strict ++ p)
  | string {s : Quoted} {p : Text} : e.item = .string s → p <+: s.strictBody →
      e.Cut (e.head.text .strict ++ '"' :: p)
  | ended {g : Text} : g <+: e.after.strict →
      e.Cut (e.head.text .strict ++ (e.item.text .strict ++ g))

/-- How a text can end in a tree: in an empty container, or in an entry of a container behind
entries that have their commas. -/
inductive Tree.Cut (R : Tree) : Text → Prop where
  | empty {A : Text} {cs : List Char} {k : Container} {inside : Gap} {g : Text} :
      Within R A cs (.empty k inside) → g <+: inside.strict → R.Cut (A ++ k.opener :: g)
  | entry {A : Text} {cs : List Char} {k : Container} {before : List (Entry k)} {es : Entries k}
      {p : Text} : Within R A cs (.filled k (.prepend before es)) → p <+: es.first.text →
      es.first.Cut p → R.Cut (A ++ k.opener :: (leadText before ++ p))

/-- Whether a tree is a container. -/
def Tree.isContainer : Tree → Bool
  | .empty _ _ => true
  | .filled _ _ => true
  | _ => false

/-- Inside a literal the text ends before its closing quote. -/
theorem prefix_of_prefix_literal {p body : Text} (h : p <+: '"' :: (body ++ ['"'])) (hne : p ≠ [])
    (hproper : p ≠ '"' :: (body ++ ['"'])) : ∃ q, p = '"' :: q ∧ q <+: body := by
  obtain ⟨c, q, rfl⟩ := List.exists_cons_of_ne_nil hne
  obtain ⟨rfl, hq⟩ := List.cons_prefix_cons.mp h
  refine ⟨q, rfl, ?_⟩
  rcases List.prefix_concat_iff.mp hq with rfl | hq
  · exact absurd rfl hproper
  · exact hq

/-- Every beginning of what stands before a value ends at one of its places. -/
theorem Head.cut_of_beginning {head : Head k} {p : Text} (h : p <+: head.text .strict) :
    head.Cut p := by
  cases head with
  | item before => exact .before h
  | member before key beforeColon afterColon =>
    rw [Head.text_strict_member] at h
    rcases proper_or_behind_of_prefix_append h with ⟨hp, -⟩ | ⟨p, rfl, hp⟩
    · exact .before hp
    rcases proper_or_behind_of_prefix_append hp with ⟨hkey, hproper⟩ | ⟨q, rfl, hq⟩
    · by_cases hne : p = []
      · subst hne
        rw [List.append_nil]
        exact .before List.prefix_rfl
      · obtain ⟨w, rfl, hw⟩ := prefix_of_prefix_literal hkey hne hproper
        exact .key hw
    rcases proper_or_behind_of_prefix_append hq with ⟨hgap, -⟩ | ⟨r, rfl, hr⟩
    · exact .named hgap
    · rcases r with _ | ⟨c, g⟩
      · rw [List.append_nil]
        exact .named List.prefix_rfl
      · obtain ⟨rfl, hg⟩ := List.cons_prefix_cons.mp hr
        exact .colon hg

/-- Every beginning of an entry ends at one of its places, or inside a container that is its
value. -/
theorem Entry.cut_of_beginning {e : Entry k} {p : Text} (h : p <+: e.text) :
    e.Cut p ∨ ∃ q, p = e.head.text .strict ++ q ∧ e.item.isContainer = true ∧
      q <+: e.item.text .strict ∧ q ≠ [] ∧ q ≠ e.item.text .strict := by
  rcases proper_or_behind_of_prefix_append h with ⟨hp, -⟩ | ⟨q, rfl, hq⟩
  · exact .inl (.head (Head.cut_of_beginning hp))
  rcases proper_or_behind_of_prefix_append hq with ⟨hitem, hproper⟩ | ⟨g, rfl, hg⟩
  · by_cases hne : q = []
    · subst hne
      left
      rw [List.append_nil]
      exact .head (Head.cut_of_beginning List.prefix_rfl)
    rcases hT : e.item with w | s | ⟨k', inside⟩ | ⟨k', es⟩
    · left
      rw [hT, Tree.text] at hitem
      exact .word hT hitem hne
    · left
      rw [hT, Tree.text] at hitem hproper
      obtain ⟨w, rfl, hw⟩ := prefix_of_prefix_literal hitem hne hproper
      exact .string hT hw
    · rw [hT] at hitem hproper
      exact .inr ⟨q, rfl, rfl, hitem, hne, hproper⟩
    · rw [hT] at hitem hproper
      exact .inr ⟨q, rfl, rfl, hitem, hne, hproper⟩
  · exact .inl (.ended hg)

/-- The text of entries is the first of them with the comma and the others, or with the closing
bracket. -/
theorem Entries.text_last (head : Head k) (item : Tree) (after : Gap)
    (trailing : Option (List Piece)) : (Entries.last head item after trailing).text .strict =
      (Entry.mk head item after).text ++ [k.closer] := by
  rw [Entries.text]
  simp [Entry.text, Pen.strict]

/-- The text of an entry, its comma and the rest. -/
theorem Entries.text_more (head : Head k) (item : Tree) (after : Gap) (rest : Entries k) :
    (Entries.more head item after rest).text .strict =
      (Entry.mk head item after).text ++ ',' :: rest.text .strict := by
  rw [Entries.text]
  simp [Entry.text, Pen.strict]

/-- From an entry to the tree around it, given the places inside a container that is its value. -/
theorem Within.cut_entry {before : List (Entry k)} {es : Entries k} {p : Text}
    (hwithin : Within R A cs (.filled k (.prepend before es))) (hp : p <+: es.first.text)
    (hitem : ∀ {A : Text} {cs : List Char} {q : Text}, Within R A cs es.first.item →
      es.first.item.isContainer = true → q <+: es.first.item.text .strict → q ≠ [] →
      q ≠ es.first.item.text .strict → R.Cut (A ++ q)) :
    R.Cut (A ++ k.opener :: (leadText before ++ p)) := by
  rcases Entry.cut_of_beginning hp with hcut | ⟨q, rfl, hcontainer, hq, hne, hproper⟩
  · exact .entry hwithin hp hcut
  · have := hitem hwithin.item hcontainer hq hne hproper
    simpa using this

mutual

/-- **Every proper beginning of a container ends at one of its places.** -/
theorem exists_cut : (T : Tree) → ∀ {A : Text} {cs : List Char} {q : Text}, Within R A cs T →
    T.isContainer = true → q <+: T.text .strict → q ≠ [] → q ≠ T.text .strict → R.Cut (A ++ q)
  | .word w, _, _, _, _, hcontainer, _, _, _ => by cases hcontainer
  | .string s, _, _, _, _, hcontainer, _, _, _ => by cases hcontainer
  | .empty k inside, A, cs, q, hwithin, _, hq, hne, hproper => by
    rw [Tree.text] at hq hproper
    obtain ⟨c, g, rfl⟩ := List.exists_cons_of_ne_nil hne
    obtain ⟨rfl, hg⟩ := List.cons_prefix_cons.mp hq
    rcases List.prefix_concat_iff.mp hg with rfl | hg
    · exact absurd rfl hproper
    · exact .empty hwithin hg
  | .filled k es, A, cs, q, hwithin, _, hq, hne, hproper => by
    rw [Tree.text] at hq hproper
    obtain ⟨c, p, rfl⟩ := List.exists_cons_of_ne_nil hne
    obtain ⟨rfl, hp⟩ := List.cons_prefix_cons.mp hq
    have hentries : Within R A cs (.filled k (.prepend [] es)) := hwithin
    exact exists_cut_entries es hentries hp fun heq => hproper (by rw [heq])

/-- Every proper beginning of the entries of a container ends at one of the places of the tree. -/
theorem exists_cut_entries {k : Container} : (es : Entries k) → ∀ {A : Text} {cs : List Char}
    {before : List (Entry k)} {p : Text}, Within R A cs (.filled k (.prepend before es)) →
    p <+: es.text .strict → p ≠ es.text .strict → R.Cut (A ++ k.opener :: (leadText before ++ p))
  | .last head item after trailing, A, cs, before, p, hwithin, hp, hproper => by
    rw [Entries.text_last] at hp hproper
    rcases List.prefix_concat_iff.mp hp with rfl | hp
    · exact absurd rfl hproper
    · exact hwithin.cut_entry hp fun hitem => exists_cut item hitem
  | .more head item after rest, A, cs, before, p, hwithin, hp, hproper => by
    rw [Entries.text_more] at hp hproper
    rcases proper_or_behind_of_prefix_append hp with ⟨hp, -⟩ | ⟨q, rfl, hq⟩
    · exact hwithin.cut_entry hp fun hitem => exists_cut item hitem
    rcases q with _ | ⟨c, q⟩
    · rw [List.append_nil]
      exact hwithin.cut_entry List.prefix_rfl fun hitem => exists_cut item hitem
    · obtain ⟨rfl, htail⟩ := List.cons_prefix_cons.mp hq
      have hrest : Within R A cs (.filled k (.prepend (before ++ [⟨head, item, after⟩]) rest)) := by
        rwa [Entries.prepend_concat]
      have := exists_cut_entries rest hrest htail fun heq => hproper (by rw [heq])
      simpa [leadText_concat] using this

end

end ShapedReply.Spelling
