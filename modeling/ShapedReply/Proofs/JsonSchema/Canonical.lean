import ShapedReply.Proofs.JsonSchema.RoundTrip

/-!
# The canonical form of schemas

The schemas that can be read from the document of a schema are the canonical ones, and they are read
from their own documents (`canonical_form`): **writing and reading a schema gives a canonical one,
which stays as it is when it is written and read again**.

`IsCanonical` says what a canonical schema is, node by node and without mention of documents. Three
facts about the canonical form make up the result: it is canonical (`isCanonical_canonical`), it
matches a schema that is canonical already (`matches_canonical`), and it is its own canonical form
(`canonical_canonical`). Null among the members of a choice is the case to watch, since a member may
turn into null by itself and then changes how its choice is read; `choice_cases` says all there is
to say about it.
-/

namespace ShapedReply

open JsonSchema

namespace Schema

/-- Whether a schema has the form that documents give, its parts apart: no external names; maps with
strings for keys; enums without other spellings; literals that are whole numbers or truth values; no
null as a member of a union, and none made optional; objects that require and describe declared
properties only, with descriptions that are not void, and that have properties if they say what
undeclared keys hold. -/
def isCanonicalNode : Schema → Bool
  | .external _ => false
  | .map .string _ => true
  | .map .. => false
  | .enum _ aliases => aliases.isEmpty
  | .literal (.int _) | .literal (.bool _) => true
  | .literal _ => false
  | .anyOf members => members.all fun s => !isNull s
  | .optional s => !isNull s
  | .object properties required additional descriptions =>
    required.all (fun name => Table.has properties name)
      && descriptions.all (fun e => Table.has properties e.1 && !e.2.isVoid)
      && (!properties.isEmpty || additional.isNone)
  | _ => true

/-- A schema that has the form that documents give, at every depth. -/
def IsCanonical (s : Schema) : Prop :=
  s.everywhere isCanonicalNode = true

mutual

/-- The same schema, up to the order in which descriptions are listed: what stands under a name
counts at every depth. -/
def Matches : Schema → Schema → Prop
  | .array s, .array t => Matches s t
  | .map key s, .map key' t => Matches key key' ∧ Matches s t
  | .object properties required additional descriptions,
      .object properties' required' additional' descriptions' =>
    MatchesNamed properties properties' ∧ required = required' ∧
      MatchesGiven additional additional' ∧
      ∀ name, descriptions.lookup name = descriptions'.lookup name
  | .anyOf members, .anyOf members' => MatchesListed members members'
  | .optional s, .optional t => Matches s t
  | s, t => s = t

/-- The same schemas in the same order. -/
def MatchesListed : List Schema → List Schema → Prop
  | [], [] => True
  | s :: rest, t :: rest' => Matches s t ∧ MatchesListed rest rest'
  | _, _ => False

/-- The same schema, or none in both places. -/
def MatchesGiven : Option Schema → Option Schema → Prop
  | none, none => True
  | some s, some t => Matches s t
  | _, _ => False

/-- The same properties in the same order. -/
def MatchesNamed : List (String × Schema) → List (String × Schema) → Prop
  | [], [] => True
  | (name, s) :: rest, (name', t) :: rest' => name = name' ∧ Matches s t ∧ MatchesNamed rest rest'
  | _, _ => False

end

/-! ## The canonical form is canonical -/

/-- What is asked of a canonical schema, its parts apart. -/
theorem isCanonical_iff {s : Schema} :
    s.IsCanonical ↔ s.isCanonicalNode = true ∧ ∀ x ∈ s.parts, x.IsCanonical :=
  everywhere_iff

/-- The literals of a canonical schema are spelled. -/
theorem IsCanonical.hasSpelledLiterals {s : Schema} (h : s.IsCanonical) : s.HasSpelledLiterals := by
  induction s using Schema.ind with
  | step s ih =>
  obtain ⟨hnode, hparts⟩ := isCanonical_iff.mp h
  refine everywhere_iff.mpr ⟨?_, fun x hx => ih x hx (hparts x hx)⟩
  cases s with
  | literal value => cases value <;> first | rfl | cases hnode
  | _ => rfl

/-- What a canonical object is, its parts apart. -/
theorem isCanonicalNode_object {properties : List (String × Schema)} {required : List String}
    {additional : Option Schema} {descriptions : List (String × Value)} :
    isCanonicalNode (.object properties required additional descriptions) = true ↔
      (∀ name ∈ required, name ∈ Table.names properties) ∧
      (∀ e ∈ descriptions, e.1 ∈ Table.names properties ∧ e.2.isVoid = false) ∧
      (properties = [] → additional = none) := by
  simp only [isCanonicalNode, Bool.and_eq_true, List.all_eq_true, Table.has_iff, Bool.not_eq_true',
    Bool.or_eq_true, List.isEmpty_eq_false_iff, Option.isNone_iff_eq_none, and_assoc, ne_eq,
    ← imp_iff_not_or]

/-- A union without null among its members is not null. -/
theorem unionOf_ne_null {members : List Schema} (h : .null ∉ members) :
    unionOf members ≠ .null := by
  unfold unionOf
  split
  · next s => exact fun hs => h (by simp [hs])
  · simp

/-- A union of canonical members without null is canonical. -/
theorem isCanonical_anyOf {members : List Schema} (hnull : .null ∉ members)
    (h : ∀ s ∈ members, s.IsCanonical) : (anyOf members).IsCanonical := by
  refine isCanonical_iff.mpr ⟨?_, h⟩
  rw [isCanonicalNode, List.all_eq_true]
  intro s hs
  rw [Bool.not_eq_true', ← Bool.not_eq_true, isNull_iff]
  rintro rfl
  exact hnull hs

/-- An optional one of a canonical schema other than null is canonical. -/
theorem isCanonical_optional {s : Schema} (hnull : s ≠ .null) (h : s.IsCanonical) :
    (optional s).IsCanonical := by
  refine isCanonical_iff.mpr ⟨?_, by simpa [parts] using h⟩
  rw [isCanonicalNode, Bool.not_eq_true', ← Bool.not_eq_true, isNull_iff]
  exact hnull

/-- A choice of canonical members is canonical. -/
theorem isCanonical_choice {members : List Schema} (h : ∀ s ∈ members, s.IsCanonical) :
    (choice members).IsCanonical := by
  rcases choice_cases members with ⟨hnull, heq⟩ | ⟨-, -, heq⟩ | ⟨-, -, heq⟩
  · rw [heq]
    exact isCanonical_anyOf hnull h
  · rw [heq]
    rfl
  · rw [heq]
    have hnull : .null ∉ others members := fun hmem => (mem_others.mp hmem).2 rfl
    have hothers : ∀ s ∈ others members, s.IsCanonical := fun s hs => h s (mem_others.mp hs).1
    refine isCanonical_optional (unionOf_ne_null hnull) ?_
    unfold unionOf
    split
    · next s hs => exact hothers s (by simp [hs])
    · exact isCanonical_anyOf hnull hothers

/-- The descriptions of a canonical form are those of declared properties, and not void. -/
theorem mem_writtenDescriptions {descriptions : List (String × Value)}
    {properties : List (String × Schema)} {e : String × Value}
    (h : e ∈ writtenDescriptions descriptions properties) :
    e.1 ∈ Table.names properties ∧ e.2.isVoid = false := by
  obtain ⟨property, hproperty, hmap⟩ := List.mem_filterMap.mp h
  obtain ⟨d, hd, rfl⟩ := Option.map_eq_some_iff.mp hmap
  have hvoid := (Option.filter_eq_some_iff.mp hd).2
  exact ⟨List.mem_map.mpr ⟨property, hproperty, rfl⟩, by simpa using hvoid⟩

/-- **The canonical form is canonical.** -/
theorem isCanonical_canonical {s : Schema} (h : s.HasSpelledLiterals) :
    s.canonical.IsCanonical := by
  induction s using Schema.ind with
  | step s ih =>
  have hparts : ∀ x ∈ s.parts, x.canonical.IsCanonical := fun x hx => ih x hx (h.of_mem_parts hx)
  cases s with
  | array s =>
    refine isCanonical_iff.mpr ⟨rfl, ?_⟩
    simpa [canonical, parts] using hparts s (by simp [parts])
  | map key s =>
    refine isCanonical_iff.mpr ⟨rfl, ?_⟩
    simpa [canonical, parts] using ⟨rfl, hparts s (by simp [parts])⟩
  | object properties required additional descriptions =>
    have hproperties : ∀ x ∈ (properties.map fun e => (e.1, e.2.canonical)).map (·.2),
        x.IsCanonical := by
      intro x hx
      rw [List.map_map] at hx
      obtain ⟨e, he, rfl⟩ := List.mem_map.mp hx
      exact hparts e.2 (List.mem_append_left _ (List.mem_map.mpr ⟨e, he, rfl⟩))
    have hadditional : ∀ x ∈ (additional.map canonical).toList, x.IsCanonical := by
      intro x hx
      obtain ⟨t, ht, rfl⟩ := Option.map_eq_some_iff.mp (Option.mem_toList.mp hx)
      exact hparts t (List.mem_append_right _ (Option.mem_toList.mpr ht))
    have hnames : Table.names (properties.map fun e => (e.1, e.2.canonical)) =
        Table.names properties := Table.names_mapEntries canonical properties
    rw [canonical_object]
    rcases objectOrMap_cases (properties.map fun e => (e.1, e.2.canonical))
        (required.filter fun name => Table.has properties name) (additional.map canonical)
        (writtenDescriptions descriptions properties) with ⟨s, -, hsome, heq⟩ | ⟨hfull, heq⟩
    · rw [heq]
      refine isCanonical_iff.mpr ⟨rfl, ?_⟩
      simpa [parts] using ⟨rfl, hadditional s (by rw [hsome]; simp)⟩
    · rw [heq]
      refine isCanonical_iff.mpr ⟨isCanonicalNode_object.mpr ⟨?_, ?_, hfull⟩, ?_⟩
      · intro name hname
        rw [hnames, ← Table.has_iff]
        exact (List.mem_filter.mp hname).2
      · intro e he
        rw [hnames]
        exact mem_writtenDescriptions he
      · rw [parts, List.forall_mem_append]
        exact ⟨hproperties, hadditional⟩
  | anyOf members =>
    rw [canonical_anyOf]
    apply isCanonical_choice
    intro s hs
    obtain ⟨t, ht, rfl⟩ := List.mem_map.mp hs
    exact hparts t ht
  | optional s =>
    rw [canonical]
    apply isCanonical_choice
    intro t ht
    rcases List.mem_pair.mp ht with rfl | rfl
    · exact hparts s (by simp [parts])
    · rfl
  | literal value => 
    have := (everywhere_iff.mp h).1
    cases value <;> first | rfl | cases this
  | _ => rfl

/-! ## A canonical schema matches its canonical form -/

/-- Schemas that match are null together. -/
theorem isNull_eq_of_matches {s t : Schema} (h : Matches s t) : isNull s = isNull t := by
  cases s <;> cases t <;> simp_all [Matches, isNull]

/-- Members match their canonical forms one by one. -/
theorem matchesListed_of_forall {members : List Schema}
    (h : ∀ s ∈ members, Matches s.canonical s) : MatchesListed (members.map canonical) members := by
  induction members with
  | nil => simp [MatchesListed]
  | cons s members ih =>
    rw [List.forall_mem_cons] at h
    rw [List.map_cons, MatchesListed]
    exact ⟨h.1, ih h.2⟩

/-- Properties match their canonical forms one by one. -/
theorem matchesNamed_of_forall {properties : List (String × Schema)}
    (h : ∀ s ∈ properties.map (·.2), Matches s.canonical s) :
    MatchesNamed (properties.map fun e => (e.1, e.2.canonical)) properties := by
  induction properties with
  | nil => simp [MatchesNamed]
  | cons e properties ih =>
    rw [List.map_cons, List.forall_mem_cons] at h
    rw [List.map_cons, MatchesNamed]
    exact ⟨rfl, h.1, ih h.2⟩

/-- What a canonical form says about a property is what the schema says, unless it is void. -/
theorem get?_writtenDescriptions (descriptions : List (String × Value))
    (properties : List (String × Schema)) (name : String) :
    Table.get? (writtenDescriptions descriptions properties) name =
      if name ∈ Table.names properties then (descriptions.lookup name).filter fun d => !d.isVoid
      else none := by
  induction properties with
  | nil => rfl
  | cons e properties ih =>
    obtain ⟨k, s⟩ := e
    rw [writtenDescriptions, List.filterMap_cons, ← writtenDescriptions]
    rcases hd : (descriptions.lookup k).filter fun d => !d.isVoid with _ | d
    · simp only [hd, Option.map_none, ih, Table.names_cons, List.mem_cons]
      by_cases hk : name = k
      · simp [hk, hd]
      · simp [hk]
    · simp only [hd, Option.map_some, Table.get?_cons, ih, Table.names_cons, List.mem_cons]
      by_cases hk : k = name
      · simp [← hk, hd]
      · simp [hk, Ne.symm hk]

/-- Descriptions of declared properties only, none of them void, are all in the canonical form. -/
theorem lookup_writtenDescriptions_of_canonical {descriptions : List (String × Value)}
    {properties : List (String × Schema)}
    (h : ∀ e ∈ descriptions, e.1 ∈ Table.names properties ∧ e.2.isVoid = false) (name : String) :
    (writtenDescriptions descriptions properties).lookup name = descriptions.lookup name := by
  have hget := get?_writtenDescriptions descriptions properties name
  rw [Table.get?] at hget
  rw [hget]
  rcases hd : descriptions.lookup name with _ | d
  · simp
  · obtain ⟨hname, hvoid⟩ := h (name, d) (Table.mem_of_get? hd)
    simp [hname, hvoid]

/-- **A canonical schema matches its canonical form.** -/
theorem matches_canonical {s : Schema} (h : s.IsCanonical) : Matches s.canonical s := by
  induction s using Schema.ind with
  | step s ih =>
  obtain ⟨hnode, hcanonical⟩ := isCanonical_iff.mp h
  have hparts : ∀ x ∈ s.parts, Matches x.canonical x := fun x hx => ih x hx (hcanonical x hx)
  cases s with
  | array s =>
    rw [canonical, Matches]
    exact hparts s (by simp [parts])
  | map key s =>
    cases key with
    | string =>
      rw [canonical, Matches]
      exact ⟨by simp [Matches], hparts s (by simp [parts])⟩
    | _ => cases hnode
  | object properties required additional descriptions =>
    obtain ⟨hrequired, hdescriptions, hfull⟩ := isCanonicalNode_object.mp hnode
    have hfilter : (required.filter fun name => Table.has properties name) = required :=
      List.filter_eq_self.mpr fun name hname => Table.has_iff.mpr (hrequired name hname)
    rw [canonical_object]
    rcases objectOrMap_cases (properties.map fun e => (e.1, e.2.canonical))
        (required.filter fun name => Table.has properties name) (additional.map canonical)
        (writtenDescriptions descriptions properties) with ⟨s, hempty, hsome, -⟩ | ⟨-, heq⟩
    · rw [hfull (List.map_eq_nil_iff.mp hempty)] at hsome
      cases hsome
    · rw [heq, Matches, hfilter]
      refine ⟨matchesNamed_of_forall ?_, rfl, ?_,
        lookup_writtenDescriptions_of_canonical hdescriptions⟩
      · exact fun x hx => hparts x (List.mem_append_left _ hx)
      · cases additional with
        | none => simp [MatchesGiven]
        | some s =>
          rw [Option.map_some, MatchesGiven]
          exact hparts s (List.mem_append_right _ (by simp))
  | enum values aliases =>
    obtain rfl : aliases = [] := List.isEmpty_iff.mp hnode
    simp [canonical, Matches]
  | external name => cases hnode
  | anyOf members =>
    have hnull : .null ∉ members.map canonical := by
      intro hmem
      obtain ⟨s, hs, hcanon⟩ := List.mem_map.mp hmem
      have hsame : true = isNull s := by
        rw [← isNull_eq_of_matches (hparts s hs), hcanon, isNull]
      have hother := List.all_eq_true.mp hnode s hs
      rw [← hsame] at hother
      cases hother
    rw [canonical_anyOf, choice_of_not_mem hnull, Matches]
    exact matchesListed_of_forall hparts
  | optional s =>
    have hmatch := hparts s (by simp [parts])
    have hnull : s.canonical ≠ .null := by
      rw [ne_eq, ← isNull_iff, isNull_eq_of_matches hmatch, Bool.not_eq_true]
      exact (Bool.not_eq_true' _).mp hnode
    rw [canonical, choice_pair hnull, Matches]
    exact hmatch
  | literal value =>
    cases value with
    | int n => simp [canonical, Matches]
    | bool b => simp [canonical, Matches]
    | _ => cases hnode
  | _ => simp [canonical, Matches]

/-! ## The canonical form is its own canonical form -/

/-- A union without null of canonical members is its own canonical form. -/
theorem canonical_unionOf {members : List Schema} (hnull : .null ∉ members)
    (h : ∀ s ∈ members, s.canonical = s) : (unionOf members).canonical = unionOf members := by
  unfold unionOf
  split
  · next s => exact h s (by simp)
  · rw [canonical_anyOf, List.map_congr_left h, List.map_id', choice_of_not_mem hnull]

/-- A choice of members that are their own canonical forms is its own canonical form. -/
theorem canonical_choice {members : List Schema} (h : ∀ s ∈ members, s.canonical = s) :
    (choice members).canonical = choice members := by
  rcases choice_cases members with ⟨-, heq⟩ | ⟨-, -, heq⟩ | ⟨-, -, heq⟩
  · rw [heq, canonical_anyOf, List.map_congr_left h, List.map_id', heq]
  · rw [heq]
    rfl
  · have hnull : .null ∉ others members := fun hmem => (mem_others.mp hmem).2 rfl
    have hothers : ∀ s ∈ others members, s.canonical = s := fun s hs => h s (mem_others.mp hs).1
    rw [heq, canonical, canonical_unionOf hnull hothers, choice_pair (unionOf_ne_null hnull)]

/-- The descriptions of a canonical form stay when it is written. -/
theorem writtenDescriptions_writtenDescriptions (descriptions : List (String × Value))
    (properties : List (String × Schema)) :
    writtenDescriptions (writtenDescriptions descriptions properties)
      (properties.map fun e => (e.1, e.2.canonical)) =
        writtenDescriptions descriptions properties := by
  conv_lhs => rw [writtenDescriptions, List.filterMap_map]
  conv_rhs => rw [writtenDescriptions]
  apply List.filterMap_congr
  intro e he
  have hname : e.1 ∈ Table.names properties := List.mem_map.mpr ⟨e, he, rfl⟩
  have hget := get?_writtenDescriptions descriptions properties e.1
  rw [Table.get?, if_pos hname] at hget
  simp [hget, Option.filter_filter]

/-- **The canonical form is its own canonical form.** -/
theorem canonical_canonical (s : Schema) : s.canonical.canonical = s.canonical := by
  induction s using Schema.ind with
  | step s ih =>
  cases s with
  | array s => rw [canonical, canonical, ih s (by simp [parts])]
  | map key s => rw [canonical, canonical, ih s (by simp [parts])]
  | object properties required additional descriptions =>
    have hproperties : (properties.map fun e => (e.1, e.2.canonical)).map
        (fun e => (e.1, e.2.canonical)) = properties.map fun e => (e.1, e.2.canonical) := by
      rw [List.map_map]
      apply List.map_congr_left
      intro e he
      exact congrArg (e.1, ·) (ih e.2 (List.mem_append_left _ (List.mem_map.mpr ⟨e, he, rfl⟩)))
    have hrequired : ((required.filter fun name => Table.has properties name).filter fun name =>
        Table.has (properties.map fun e => (e.1, e.2.canonical)) name) =
        required.filter fun name => Table.has properties name := by
      apply List.filter_eq_self.mpr
      intro name hname
      exact (Table.has_mapEntries canonical properties name).trans (List.mem_filter.mp hname).2
    have hadditional : (additional.map canonical).map canonical = additional.map canonical := by
      rw [Option.map_map]
      apply Option.map_congr
      intro t ht
      exact ih t (List.mem_append_right _ (Option.mem_toList.mpr ht))
    rw [canonical_object]
    rcases objectOrMap_cases (properties.map fun e => (e.1, e.2.canonical))
        (required.filter fun name => Table.has properties name) (additional.map canonical)
        (writtenDescriptions descriptions properties) with ⟨s, -, hsome, heq⟩ | ⟨-, heq⟩
    · rw [hsome, Option.map_some, Option.some.injEq] at hadditional
      rw [heq, canonical, hadditional]
    · rw [heq, canonical_object, hproperties, hrequired, hadditional,
        writtenDescriptions_writtenDescriptions, heq]
  | anyOf members =>
    rw [canonical_anyOf]
    apply canonical_choice
    intro s hs
    obtain ⟨t, ht, rfl⟩ := List.mem_map.mp hs
    exact ih t ht
  | optional s =>
    rw [canonical]
    apply canonical_choice
    intro t ht
    rcases List.mem_pair.mp ht with rfl | rfl
    · exact ih s (by simp [parts])
    · rfl
  | literal value => cases value <;> rfl
  | _ => rfl

/-- **Documents have a canonical form.** A schema with spelled literals that is written and read
again is canonical and stays as it is from then on; and a canonical schema that is written and read
again is the same schema, up to the order in which descriptions are listed. -/
theorem canonical_form :
    (∀ s : Schema, s.HasSpelledLiterals →
      ∃ c, s.rewritten = .ok c ∧ c.IsCanonical ∧ c.rewritten = .ok c) ∧
    ∀ c : Schema, c.IsCanonical → ∃ d, c.rewritten = .ok d ∧ d.Matches c := by
  constructor
  · intro s hs
    have hcanonical := isCanonical_canonical hs
    refine ⟨s.canonical, rewritten_eq hs, hcanonical, ?_⟩
    rw [rewritten_eq hcanonical.hasSpelledLiterals, canonical_canonical]
  · intro c hc
    exact ⟨c.canonical, rewritten_eq hc.hasSpelledLiterals, matches_canonical hc⟩

/-- A schema that no document gives: a literal string, a choice whose members turn into null one by
one, an external name, and a name that is required and described without being declared. -/
def looseNote : Schema :=
  .object [("kind", .literal (.str "note")),
      ("next", .anyOf [.optional .null, .ref "Note", .anyOf [.null]]), ("body", .external "Blob")]
    ["kind", "ghost"] none [("ghost", .str "nowhere"), ("next", .str "what follows"),
      ("kind", .str "")]

/-- What is read from its document. -/
def settledNote : Schema :=
  .object [("kind", .enum ["note"] []), ("next", .optional (.ref "Note")), ("body", .ref "Blob")]
    ["kind"] none [("next", .str "what follows")]

/-- Reading its document settles the note, and reading once more changes nothing. -/
theorem canonical_form_note :
    looseNote.rewritten = .ok settledNote ∧ looseNote.HasSpelledLiterals ∧
      (∃ c, looseNote.rewritten = .ok c ∧ c.IsCanonical ∧ c.rewritten = .ok c) ∧
      settledNote.IsCanonical ∧ ∃ d, settledNote.rewritten = .ok d ∧ d.Matches settledNote :=
  have hloose : looseNote.HasSpelledLiterals := by cbv
  have hsettled : settledNote.IsCanonical := by cbv
  have hnote : looseNote.canonical = settledNote := by cbv
  ⟨hnote ▸ rewritten_eq hloose, hloose, canonical_form.1 looseNote hloose, hsettled,
    canonical_form.2 settledNote hsettled⟩

end Schema

end ShapedReply
