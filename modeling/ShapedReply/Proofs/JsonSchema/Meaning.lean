import ShapedReply.Proofs.JsonSchema.RoundTrip
import ShapedReply.Proofs.Schema.Acceptance

/-!
# Documents keep the meaning of schemas

Writing a schema as a document and reading it again loses how the schema was put, but not what it
accepts: **a schema and what is read from its document accept the same values**
(`check_ofDocument_toDocument`), whatever the catalog knows, if all literals can be written.

What is asked of the schema is that nothing in it goes astray in a document: external names, which
would be read as names of the catalog; literals that no text spells; and required names that are not
declared, which a document does not keep. The proof follows the canonical form part by part
(`accepts_canonical`); a choice accepts what one of its members accepts, however null among them is
put (`accepts_choice`). A literal that cannot be written breaks that, since null is put behind it or
in front of it (`check_ofDocument_toDocument_unwritable`).
-/

namespace ShapedReply

open Check JsonSchema

namespace Schema

/-- Whether a schema is an external name. -/
def isExternal : Schema → Bool
  | .external _ => true
  | _ => false

/-- Whether the required names of an object are among its properties. -/
def requiresDeclared : Schema → Bool
  | .object properties required _ _ => required.all fun name => Table.has properties name
  | _ => true

/-- A schema without external names, with spelled literals only, and with objects that require
declared names only, at every depth. -/
def IsPortable (s : Schema) : Prop :=
  s.everywhere (fun n => !n.isExternal && n.hasSpelledLiteral && n.requiresDeclared) = true

/-- What is asked of a portable schema, its parts apart. -/
theorem isPortable_iff {s : Schema} :
    s.IsPortable ↔ (s.isExternal = false ∧ s.hasSpelledLiteral = true ∧ s.requiresDeclared = true) ∧
      ∀ x ∈ s.parts, x.IsPortable := by
  rw [IsPortable, everywhere_iff]
  simp [IsPortable, and_assoc]

/-- The parts of a portable schema are portable. -/
theorem IsPortable.of_mem_parts {s x : Schema} (h : s.IsPortable) (hx : x ∈ s.parts) :
    x.IsPortable :=
  (isPortable_iff.mp h).2 x hx

/-- The literals of a portable schema are spelled. -/
theorem IsPortable.hasSpelledLiterals {s : Schema} (h : s.IsPortable) : s.HasSpelledLiterals := by
  refine everywhere_mono (fun n hn => ?_) h
  simp only [Bool.and_eq_true] at hn
  exact hn.1.2

/-! ## Literals of the canonical form -/

/-- A choice has writable literals if its members have. -/
theorem hasWritableLiterals_choice {members : List Schema}
    (h : ∀ s ∈ members, s.HasWritableLiterals) : (choice members).HasWritableLiterals := by
  have hunion {members : List Schema} (h : ∀ s ∈ members, s.HasWritableLiterals) :
      (unionOf members).HasWritableLiterals := by
    unfold unionOf
    split
    · exact h _ (List.mem_singleton_self _)
    · exact hasWritableLiterals_iff.mpr ⟨rfl, h⟩
  rcases choice_cases members with ⟨-, heq⟩ | ⟨-, -, heq⟩ | ⟨-, -, heq⟩
  · rw [heq]
    exact hasWritableLiterals_iff.mpr ⟨rfl, h⟩
  · rw [heq]
    rfl
  · have hothers := hunion fun s hs => h s (mem_others.mp hs).1
    rw [heq]
    exact hasWritableLiterals_iff.mpr ⟨rfl, by simpa [parts] using hothers⟩

/-- The canonical form has writable literals if the schema has. -/
theorem HasWritableLiterals.canonical {s : Schema} (h : s.HasWritableLiterals) :
    s.canonical.HasWritableLiterals := by
  induction s using Schema.ind with
  | step s ih =>
  have hparts : ∀ x ∈ s.parts, x.canonical.HasWritableLiterals :=
    fun x hx => ih x hx (h.of_mem_parts hx)
  cases s with
  | array s =>
    exact hasWritableLiterals_iff.mpr ⟨rfl, by simpa [Schema.canonical, parts] using hparts⟩
  | map key s =>
    have hs := hparts s (by simp [parts])
    exact hasWritableLiterals_iff.mpr ⟨rfl, by simpa [Schema.canonical, parts] using ⟨rfl, hs⟩⟩
  | object properties required additional descriptions =>
    rw [canonical_object]
    rcases objectOrMap_cases (properties.map fun e => (e.1, e.2.canonical))
        (required.filter fun name => Table.has properties name) (additional.map Schema.canonical)
        (writtenDescriptions descriptions properties) with ⟨s, -, hs, heq⟩ | ⟨-, heq⟩
    · obtain ⟨x, rfl, rfl⟩ := Option.map_eq_some_iff.mp hs
      have hx := hparts x (by simp [parts])
      rw [heq]
      exact hasWritableLiterals_iff.mpr ⟨rfl, by simpa [parts] using ⟨rfl, hx⟩⟩
    · rw [heq]
      refine hasWritableLiterals_iff.mpr ⟨rfl, fun x hx => ?_⟩
      rcases List.mem_append.mp hx with hx | hx
      · rw [List.map_map] at hx
        obtain ⟨e, he, rfl⟩ := List.mem_map.mp hx
        exact hparts e.2 (List.mem_append_left _ (List.mem_map_of_mem he))
      · obtain ⟨y, hy, rfl⟩ := Option.map_eq_some_iff.mp (Option.mem_toList.mp hx)
        exact hparts y (List.mem_append_right _ (Option.mem_toList.mpr hy))
  | anyOf members =>
    rw [canonical_anyOf]
    refine hasWritableLiterals_choice fun x hx => ?_
    obtain ⟨y, hy, rfl⟩ := List.mem_map.mp hx
    exact hparts y hy
  | optional s =>
    rw [Schema.canonical]
    exact hasWritableLiterals_choice (List.forall_mem_cons.mpr
      ⟨hparts s (by simp [parts]), List.forall_mem_singleton.mpr rfl⟩)
  | literal value =>
    cases value with
    | str t => rfl
    | _ => exact h
  | _ => exact h

end Schema

variable {resolve : Resolver} {v : Value}

/-- A choice accepts what one of its members accepts, if no member fails without a report. -/
theorem accepts_choice {members : List Schema}
    (h : ∀ s ∈ members, check resolve v s ≠ .error .integerUnwritable) :
    Accepts resolve v (choice members) ↔ ∃ s ∈ members, Accepts resolve v s := by
  have hsplit (hnull : .null ∈ members) : (∃ s ∈ members, Accepts resolve v s) ↔
      v = .null ∨ ∃ s ∈ others members, Accepts resolve v s := by
    constructor
    · rintro ⟨s, hs, haccepts⟩
      by_cases h : s = .null
      · subst h
        exact .inl (accepts_null.mp haccepts)
      · exact .inr ⟨s, mem_others.mpr ⟨hs, h⟩, haccepts⟩
    · rintro (rfl | ⟨s, hs, haccepts⟩)
      · exact ⟨.null, hnull, accepts_null.mpr rfl⟩
      · exact ⟨s, (mem_others.mp hs).1, haccepts⟩
  rcases choice_cases members with ⟨-, heq⟩ | ⟨hnull, hnone, heq⟩ | ⟨hnull, -, heq⟩
  · rw [heq, accepts_anyOf h]
  · rw [heq, accepts_null, hsplit hnull, hnone]
    simp
  · rw [heq, accepts_optional, hsplit hnull]
    have hunion : Accepts resolve v (unionOf (others members)) ↔
        ∃ s ∈ others members, Accepts resolve v s := by
      unfold unionOf
      split
      · next s hs => simp [hs]
      · rw [accepts_anyOf fun s hs => h s (mem_others.mp hs).1]
    rw [hunion]

/-- An object without properties accepts what the map in its place accepts. -/
theorem accepts_objectOrMap {properties : List (String × Schema)} {required : List String}
    {additional : Option Schema} {descriptions : List (String × Value)}
    (h : ∀ name ∈ required, name ∈ Table.names properties) :
    Accepts resolve v (Schema.objectOrMap properties required additional descriptions) ↔
      Accepts resolve v (.object properties required additional descriptions) := by
  rcases Schema.objectOrMap_cases properties required additional descriptions with
    ⟨s, rfl, rfl, heq⟩ | ⟨-, heq⟩
  · obtain rfl : required = [] := List.eq_nil_iff_forall_not_mem.mpr fun name hname => by
      simpa using h name hname
    rw [heq, accepts_map, accepts_object]
    simp [fieldSchema]
  · rw [heq]

/-- The schema that a field belongs to in a canonical form is the canonical form of the one that it
belonged to. -/
theorem fieldSchema_canonical (properties : List (String × Schema)) (additional : Option Schema)
    (name : String) :
    fieldSchema (properties.map fun e => (e.1, e.2.canonical))
        (additional.map Schema.canonical) name =
      (fieldSchema properties additional name).map Schema.canonical := by
  have hget := Table.get?_mapEntries Schema.canonical properties name
  rw [Table.mapEntries, Table.get?, Table.get?] at hget
  rw [fieldSchema, fieldSchema, hget, Option.map_or]

/-- **The canonical form accepts the same values.** -/
theorem accepts_canonical {s : Schema} (hresolve : resolve.HasWritableLiterals) (hs : s.IsPortable)
    (hwritable : s.HasWritableLiterals) :
    ∀ v, Accepts resolve v s.canonical ↔ Accepts resolve v s := by
  induction s using Schema.ind with
  | step s ih =>
  intro v
  have hparts : ∀ x ∈ s.parts, ∀ v, Accepts resolve v x.canonical ↔ Accepts resolve v x :=
    fun x hx => ih x hx (hs.of_mem_parts hx) (hwritable.of_mem_parts hx)
  -- Choices are asked about canonical members, which have writable literals like the members.
  have hreports : ∀ x ∈ s.parts, check resolve v x.canonical ≠ .error .integerUnwritable :=
    fun x hx => check_ne_integerUnwritable hresolve (hwritable.of_mem_parts hx).canonical v
  obtain ⟨hexternal, hliteral, hrequired⟩ := (Schema.isPortable_iff.mp hs).1
  cases s with
  | array s =>
    rw [Schema.canonical, accepts_array, accepts_array]
    simp only [hparts s (by simp [Schema.parts])]
  | map key s =>
    rw [Schema.canonical, accepts_map, accepts_map]
    simp only [hparts s (by simp [Schema.parts])]
  | object properties required additional descriptions =>
    have hdeclared : ∀ name ∈ required, name ∈ Table.names properties := by
      simpa [Schema.requiresDeclared, Table.has_iff] using hrequired
    have hfilter : (required.filter fun name => Table.has properties name) = required :=
      List.filter_eq_self.mpr fun name hname => Table.has_iff.mpr (hdeclared name hname)
    rw [Schema.canonical_object, hfilter, accepts_objectOrMap, accepts_object, accepts_object]
    · refine exists_congr fun es => and_congr_right fun _ => and_congr_right fun _ =>
        forall₂_congr fun e _ => ?_
      rw [fieldSchema_canonical]
      constructor
      · intro h s hs
        exact (hparts s (mem_parts_of_fieldSchema hs) e.2).mp (h _ (by rw [hs]; rfl))
      · intro h t ht
        obtain ⟨s, hs, rfl⟩ := Option.map_eq_some_iff.mp ht
        exact (hparts s (mem_parts_of_fieldSchema hs) e.2).mpr (h s hs)
    · intro name hname
      rw [← Table.mapEntries, Table.names_mapEntries]
      exact hdeclared name hname
  | anyOf members =>
    have hcanonical : ∀ t ∈ members.map Schema.canonical,
        check resolve v t ≠ .error .integerUnwritable := by
      intro t ht
      obtain ⟨x, hx, rfl⟩ := List.mem_map.mp ht
      exact hreports x hx
    rw [Schema.canonical_anyOf, accepts_choice hcanonical,
      accepts_anyOf_of_writable hresolve hwritable]
    constructor
    · rintro ⟨t, ht, haccepts⟩
      obtain ⟨s, hs, rfl⟩ := List.mem_map.mp ht
      exact ⟨s, hs, (hparts s hs v).mp haccepts⟩
    · rintro ⟨s, hs, haccepts⟩
      exact ⟨s.canonical, List.mem_map_of_mem hs, (hparts s hs v).mpr haccepts⟩
  | optional s =>
    have hnull : ∀ v, check resolve v .null ≠ .error .integerUnwritable :=
      check_ne_integerUnwritable hresolve (s := .null) rfl
    have hcanonical : ∀ t ∈ [s.canonical, .null], check resolve v t ≠ .error .integerUnwritable :=
      List.forall_mem_cons.mpr ⟨hreports s (by simp [Schema.parts]),
        List.forall_mem_singleton.mpr (hnull v)⟩
    rw [Schema.canonical, accepts_choice hcanonical, accepts_optional]
    simp [accepts_null, hparts s (by simp [Schema.parts]), or_comm]
  | enum values aliases => rw [Schema.canonical, accepts_enum, accepts_enum]
  | external name => cases hexternal
  | literal value =>
    cases value with
    | str t =>
      rw [Schema.canonical, accepts_enum, accepts_literal]
      cases v with
      | str u =>
        simp only [isLiteral, Value.str.injEq, exists_eq_left', List.cons_ne_nil, false_or,
          List.mem_singleton, beq_iff_eq]
        exact eq_comm
      | _ => simp [isLiteral]
    | _ => rfl
  | _ => rfl

/-- **Documents keep the meaning of schemas.** A portable schema has a document, the document can be
read, and what is read from it accepts the same values as the schema, whatever the catalog knows, if
the whole numbers among the literals of the schema and of the catalog have at most 4300 digits. -/
theorem check_ofDocument_toDocument {s : Schema} (hs : s.IsPortable) :
    ∃ document t, s.toDocument = .ok document ∧ Schema.ofDocument document = .ok t ∧
      (s.HasWritableLiterals → ∀ resolve : Resolver, resolve.HasWritableLiterals →
        ∀ v : Value, check resolve v t = .ok () ↔ check resolve v s = .ok ()) := by
  obtain ⟨document, hdocument, -, hread⟩ := readsBack hs.hasSpelledLiterals
  refine ⟨.map document, s.canonical, ?_, hread, fun hwritable resolve hresolve =>
    accepts_canonical hresolve hs hwritable⟩
  rw [Schema.toDocument, hdocument]
  rfl

/-- A schema that every kind of detour goes through: an object that stands for a map, a choice whose
members turn into null, a literal string, a literal number, and a name. -/
def tangledNote : Schema :=
  .object [("kind", .literal (.str "note")), ("tags", .object [] [] (some .string) []),
      ("next", .anyOf [.optional .null, .literal (.int 7), .ref "Note", .anyOf [.null]])]
    ["kind"] (some (.map .int .bool)) [("next", .str "what follows")]

/-- What is read from its document accepts what the note accepts. -/
theorem check_ofDocument_toDocument_note :
    tangledNote.IsPortable ∧ tangledNote.HasWritableLiterals ∧
    ∃ document t, tangledNote.toDocument = .ok document ∧ Schema.ofDocument document = .ok t ∧
      ∀ resolve : Resolver, resolve.HasWritableLiterals →
        ∀ v : Value, check resolve v t = .ok () ↔ check resolve v tangledNote = .ok () := by
  have hportable : tangledNote.IsPortable := by cbv
  have hwritable : tangledNote.HasWritableLiterals := by cbv
  obtain ⟨document, t, hdocument, hread, hmeaning⟩ := check_ofDocument_toDocument hportable
  exact ⟨hportable, hwritable, document, t, hdocument, hread, hmeaning hwritable⟩

/-- Null is accepted by what is read from the document of a union, and not by the union, if a
literal in front of it has too many digits to be written: in what is read, null comes first. -/
theorem check_ofDocument_toDocument_unwritable :
    unwritableOrNull.IsPortable ∧
    ∃ document t, unwritableOrNull.toDocument = .ok document ∧ Schema.ofDocument document = .ok t ∧
      ∀ resolve, check resolve .null t = .ok () ∧
        check resolve .null unwritableOrNull = .error .integerUnwritable := by
  refine ⟨rfl, ?_⟩
  have hread : ∃ document t, unwritableOrNull.toDocument = .ok document ∧
      Schema.ofDocument document = .ok t ∧ ∀ resolve, check resolve .null t = .ok () := by
    unfold unwritableOrNull Scalar.unwritable
    generalize Int.ofNat (10 ^ maxIntegerDigits) = n
    exact ⟨_, .optional (.literal (.int n)), rfl, rfl, fun _ => rfl⟩
  obtain ⟨document, t, hdocument, hread, hcheck⟩ := hread
  exact ⟨document, t, hdocument, hread, fun resolve => ⟨hcheck resolve, check_unwritableOrNull⟩⟩

end ShapedReply
