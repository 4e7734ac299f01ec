import ShapedReply.JsonSchema.Reader
import ShapedReply.JsonSchema.Writer
import ShapedReply.Proofs.Schema.KindAgreement
import ShapedReply.Proofs.Table

/-!
# Reading back what was written

The document format says less than a schema does: the keys of maps and the other spellings of enum
members are not written, a literal string is written as an enum, an external name as a reference, an
object without properties that says what its keys hold as a map, and null among the members of a
choice turns into an optional shape when it is read.

`Schema.canonical` is what remains. **Every schema with spelled literals has a document, and reading
that document gives its canonical form** (`readsBack`). The proof is an induction over the schema;
its one delicate point is that the description of a property is put into the document of the
property, where it must neither change what is read (`read_put`) nor stand already (`ReadsBack`
carries that a document keeps to the vocabulary of the format).
-/

namespace ShapedReply

open Outcome

namespace Schema

/-! ## Canonical forms -/

/-- An object, or the map that the format has in its place: without properties and with a shape for
all keys. -/
def objectOrMap (properties : List (String × Schema)) (required : List String)
    (additional : Option Schema) (descriptions : List (String × Value)) : Schema :=
  match properties, additional with
  | [], some s => .map .string s
  | _, _ => .object properties required additional descriptions

/-- Only an object without properties that allows for others is read as a map. -/
theorem objectOrMap_cases (properties : List (String × Schema)) (required : List String)
    (additional : Option Schema) (descriptions : List (String × Value)) :
    (∃ s, properties = [] ∧ additional = some s ∧
      objectOrMap properties required additional descriptions = .map .string s) ∨
    ((properties = [] → additional = none) ∧
      objectOrMap properties required additional descriptions =
        .object properties required additional descriptions) := by
  cases properties with
  | nil =>
    cases additional with
    | none => exact .inr ⟨fun _ => rfl, rfl⟩
    | some s => exact .inl ⟨s, rfl, rfl, rfl⟩
  | cons e properties => exact .inr ⟨by simp, rfl⟩

/-- The descriptions that count: of declared properties, in the order of their declaration, and not
void. -/
def writtenDescriptions (descriptions : List (String × Value))
    (properties : List (String × Schema)) : List (String × Value) :=
  properties.filterMap fun e =>
    ((descriptions.lookup e.1).filter fun d => !d.isVoid).map fun d => (e.1, d)

mutual

/-- What remains of a schema when its document is read. -/
def canonical : Schema → Schema
  | .array s => .array (canonical s)
  | .map _ s => .map .string (canonical s)
  | .object properties required additional descriptions =>
    objectOrMap (canonicalNamed properties) (required.filter fun name => Table.has properties name)
      (match additional with
        | some s => some (canonical s)
        | none => none)
      (writtenDescriptions descriptions properties)
  | .enum values _ => .enum values []
  | .external name => .ref name
  | .anyOf members => JsonSchema.choice (canonicalListed members)
  | .optional s => JsonSchema.choice [canonical s, .null]
  | .literal (.str s) => .enum [s] []
  | s => s

/-- The canonical forms of several schemas. -/
def canonicalListed : List Schema → List Schema
  | [] => []
  | s :: rest => canonical s :: canonicalListed rest

/-- The canonical forms of properties. -/
def canonicalNamed : List (String × Schema) → List (String × Schema)
  | [] => []
  | (name, s) :: rest => (name, canonical s) :: canonicalNamed rest

end

/-- Members are put in canonical form one by one. -/
theorem canonicalListed_eq_map (members : List Schema) :
    canonicalListed members = members.map canonical := by
  induction members with
  | nil => rfl
  | cons s rest ih => rw [canonicalListed, ih, List.map_cons]

/-- Properties are put in canonical form one by one. -/
theorem canonicalNamed_eq_map (properties : List (String × Schema)) :
    canonicalNamed properties = properties.map fun e => (e.1, e.2.canonical) := by
  induction properties with
  | nil => rfl
  | cons e rest ih => rw [canonicalNamed, ih, List.map_cons]

/-- The canonical form of a union, by those of its members. -/
theorem canonical_anyOf (members : List Schema) :
    canonical (.anyOf members) = JsonSchema.choice (members.map canonical) := by
  rw [canonical, canonicalListed_eq_map]

/-- The canonical form of an object, by those of its properties. -/
theorem canonical_object (properties : List (String × Schema)) (required : List String)
    (additional : Option Schema) (descriptions : List (String × Value)) :
    canonical (.object properties required additional descriptions) =
      objectOrMap (properties.map fun e => (e.1, e.2.canonical))
        (required.filter fun name => Table.has properties name) (additional.map canonical)
        (writtenDescriptions descriptions properties) := by
  cases additional <;> simp [canonical, canonicalNamed_eq_map]

end Schema

namespace JsonSchema

/-! ## Choices -/

/-- The members of a choice that are not null. -/
def others (members : List Schema) : List Schema :=
  members.filter fun s => !isNull s

/-- A union, or its only member. -/
def unionOf : List Schema → Schema
  | [s] => s
  | members => .anyOf members

/-- One schema is null. -/
theorem isNull_iff {s : Schema} : isNull s = true ↔ s = .null := by
  cases s <;> simp [isNull]

/-- The other members of a union are those that are not null. -/
theorem mem_others {members : List Schema} {s : Schema} :
    s ∈ others members ↔ s ∈ members ∧ s ≠ .null := by
  rw [others, List.mem_filter, Bool.not_eq_true', ← Bool.not_eq_true, isNull_iff]

/-- What becomes of a choice: a union when null is not among its members, and otherwise null, or the
other members made optional. -/
theorem choice_cases (members : List Schema) :
    (.null ∉ members ∧ choice members = .anyOf members) ∨
    (.null ∈ members ∧ others members = [] ∧ choice members = .null) ∨
    (.null ∈ members ∧ others members ≠ [] ∧
      choice members = .optional (unionOf (others members))) := by
  have hlength : (others members).length = members.length ↔ .null ∉ members := by
    rw [others, List.length_filter_eq_length_iff]
    constructor
    · intro h hnull
      simpa [isNull] using h .null hnull
    · intro h s hs
      rw [Bool.not_eq_true', ← Bool.not_eq_true, isNull_iff]
      exact fun hnull => h (hnull ▸ hs)
  by_cases hnull : .null ∈ members
  · right
    have hlength : ¬ (others members).length = members.length :=
      mt hlength.mp (not_not_intro hnull)
    rcases hothers : others members with _ | ⟨s, _ | ⟨t, rest⟩⟩
    · exact .inl ⟨hnull, rfl, by rw [choice, ← others, if_neg hlength, hothers]⟩
    · exact .inr ⟨hnull, by simp, by rw [choice, ← others, if_neg hlength, hothers]; rfl⟩
    · exact .inr ⟨hnull, by simp, by rw [choice, ← others, if_neg hlength, hothers]; rfl⟩
  · exact .inl ⟨hnull, if_pos (hlength.mpr hnull)⟩

/-- Without null a choice is the union of its members. -/
theorem choice_of_not_mem {members : List Schema} (h : .null ∉ members) :
    choice members = .anyOf members := by
  rcases choice_cases members with ⟨-, heq⟩ | ⟨hmem, -⟩ | ⟨hmem, -⟩
  · exact heq
  · exact absurd hmem h
  · exact absurd hmem h

/-- A choice between a schema and null is the optional schema. -/
theorem choice_pair {s : Schema} (h : s ≠ .null) : choice [s, .null] = .optional s := by
  have hs : isNull s = false := by rwa [← Bool.not_eq_true, isNull_iff]
  have hnull : isNull .null = true := rfl
  have hothers : others [s, .null] = [s] := by simp [others, hs, hnull]
  rcases choice_cases [s, .null] with ⟨hmem, -⟩ | ⟨-, hnone, -⟩ | ⟨-, -, heq⟩
  · simp at hmem
  · rw [hothers] at hnone
    cases hnone
  · rw [heq, hothers]
    rfl

/-! ## What each form of document reads as -/

/-- A document that is a map is read as a schema. -/
theorem table?_map (document : List (String × Value)) :
    table? (.map document) = some (read (.map document)) := by
  rw [table?, read]

/-- A document for lists reads as the list of what its items read as. -/
theorem read_array (item : List (String × Value)) :
    read (.map (typed "array" ++ [("items", .map item)])) = (read (.map item)).map .array := by
  rw [read]
  simp only [typed, keywords, List.cons_append, List.nil_append, table?_map, Keywords.toSchema,
    Option.or_none, Keywords.byType, Keywords.ofType]

/-- The document of an object reads as the keywords that it was written with. -/
theorem read_object (documents : List (String × Value)) (required : List String) (other : Value) :
    read (.map (typed "object" ++ [("properties", .map documents)]
      ++ (if required.isEmpty then [] else [("required", .array (required.map .str))])
      ++ [("additionalProperties", other)])) =
    Keywords.object
      { type := some (.str "object")
        properties := some (.ok (propertyList documents))
        required := if required.isEmpty then none else some (.array (required.map .str))
        additional := table? other } := by
  rw [read]
  cases required <;>
    simp only [typed, keywords, properties, List.cons_append, List.nil_append, List.isEmpty_nil,
      List.isEmpty_cons, if_true, if_false, Bool.false_eq_true, Keywords.toSchema, Option.or_none,
      Keywords.byType, Keywords.ofType]

/-- A document with values reads as their enumeration. -/
theorem read_enum (name : String) (values : List Value) :
    read (.map (typed name ++ [("enum", .array values)])) =
      enumeration values (some (.str name)) := by
  rw [read]
  simp only [typed, keywords, List.cons_append, List.nil_append, Keywords.toSchema]
  rfl

/-- A reference reads as the name that it ends with. -/
theorem read_ref (ref : String) : read (.map [("$ref", .str ref)]) = .ok (.ref (refName ref)) := by
  rw [read]
  simp only [keywords, Keywords.toSchema]
  rfl

/-- A document with members reads as a choice between what they read as. -/
theorem read_anyOf (documents : List Value) :
    read (.map [("anyOf", .array documents)]) = (readAll documents).map choice := by
  rw [read]
  simp only [keywords, Keywords.toSchema, choices, Option.or_none]
  rfl

/-! ## Entries beside the keywords -/

/-- A name that is no keyword. -/
def IsNoKeyword (name : String) : Prop :=
  ∀ v rest, keywords ((name, v) :: rest) = keywords rest

/-- A description does not change what a document reads as. -/
theorem isNoKeyword_description : IsNoKeyword "description" := by
  intro v rest
  simp [keywords]

/-- Definitions do not change what a document reads as. -/
theorem isNoKeyword_defs : IsNoKeyword "$defs" := by
  intro v rest
  simp [keywords]

/-- Putting something into a document under a name that is no keyword changes nothing that is
read. -/
theorem read_put {name : String} (h : IsNoKeyword name) (document : List (String × Value))
    (v : Value) : read (.map (Table.put document name v)) = read (.map document) := by
  have hkeywords : keywords (Table.put document name v) = keywords document := by
    induction document with
    | nil => exact h v []
    | cons e document ih =>
      obtain ⟨k, d⟩ := e
      by_cases hk : k = name
      · subst hk
        rw [Table.put, if_pos rfl, h, h]
      · simp only [Table.put, hk, if_false, keywords, ih]
  rw [read, read, hkeywords]

/-- The names that stand in the document of a schema. -/
def vocabulary : List String :=
  ["type", "items", "properties", "required", "additionalProperties", "enum", "$ref", "anyOf"]

/-- A document says nothing under names outside of the vocabulary. -/
theorem get?_eq_none_of_vocabulary {document : List (String × Value)}
    (h : Table.names document ⊆ vocabulary) {name : String} (hname : name ∉ vocabulary) :
    Table.get? document name = none :=
  Table.get?_eq_none_iff.mpr fun hmem => hname (h hmem)

/-- A schema whose document can be written, keeps to the vocabulary, and reads as the canonical form
of the schema. -/
def ReadsBack (s : Schema) : Prop :=
  ∃ document, entries s = .ok document ∧ Table.names document ⊆ vocabulary ∧
    read (.map document) = .ok s.canonical

/-- The property that is read from the document of a described property. -/
def propertyOf (descriptions : List (String × Value)) (e : String × Schema) : Property :=
  ⟨e.1, (descriptions.lookup e.1).filter fun d => !d.isVoid, .ok e.2.canonical⟩

/-- Properties that read back each by itself read back as the properties of an object. -/
theorem exists_propertyEntries (descriptions : List (String × Value))
    {properties : List (String × Schema)} (h : ∀ s ∈ properties.map (·.2), ReadsBack s) :
    ∃ documents, propertyEntries descriptions properties = .ok documents ∧
      documents.map (·.1) = properties.map (·.1) ∧
      propertyList documents = properties.map (propertyOf descriptions) := by
  induction properties with
  | nil => exact ⟨[], rfl, rfl, rfl⟩
  | cons e properties ih =>
    obtain ⟨name, s⟩ := e
    rw [List.map_cons, List.forall_mem_cons] at h
    obtain ⟨document, hdocument, hwords, hread⟩ := h.1
    obtain ⟨documents, hdocuments, hnames, hlist⟩ := ih h.2
    have hplain : document.lookup "description" = none :=
      get?_eq_none_of_vocabulary hwords (by decide)
    rw [propertyEntries, hdocument, hdocuments]
    rcases hd : descriptions.lookup name with _ | d
    · refine ⟨(name, .map document) :: documents, rfl, by simp [hnames], ?_⟩
      simp [propertyList, propertyOf, description?, hplain, hread, hlist, hd]
    · refine ⟨(name, .map (Table.put document "description" d)) :: documents, rfl,
        by simp [hnames], ?_⟩
      have hdescription : (Table.put document "description" d).lookup "description" = some d :=
        Table.get?_put_self document "description" d
      have hread' : read (.map (Table.put document "description" d)) = .ok s.canonical := by
        rw [read_put isNoKeyword_description, hread]
      simp [propertyList, propertyOf, description?, hdescription, hread', hlist, hd]

/-- Members that read back each by itself read back as the members of a choice. -/
theorem exists_memberDocuments {members : List Schema} (h : ∀ s ∈ members, ReadsBack s) :
    ∃ documents, memberDocuments members = .ok documents ∧
      readAll documents = .ok (members.map Schema.canonical) := by
  induction members with
  | nil => exact ⟨[], rfl, rfl⟩
  | cons s members ih =>
    rw [List.forall_mem_cons] at h
    obtain ⟨document, hdocument, -, hread⟩ := h.1
    obtain ⟨documents, hdocuments, hall⟩ := ih h.2
    refine ⟨.map document :: documents, ?_, ?_⟩
    · rw [memberDocuments, hdocument, hdocuments]
      rfl
    · rw [readAll, hread, hall]
      rfl

/-! ## Objects -/

/-- Of the required names that are written, the declared ones are read. -/
theorem requiredNames_texts (descriptions : List (String × Value))
    (properties : List (String × Schema)) (required : List String) :
    requiredNames (properties.map (propertyOf descriptions)) (required.map .str) =
      .ok (required.filter fun name => Table.has properties name) := by
  have hany (name : String) :
      ((properties.map (propertyOf descriptions)).any fun p => p.name == name) =
        Table.has properties name := by
    rw [Bool.eq_iff_iff, Table.has_iff, Table.names]
    simp [propertyOf]
  induction required with
  | nil => rfl
  | cons name required ih =>
    rw [List.map_cons, requiredNames, ih, hany, List.filter_cons]
    rfl

/-- The schemas of properties that were read without a fault. -/
theorem mapM_schema (descriptions : List (String × Value)) (properties : List (String × Schema)) :
    ((properties.map (propertyOf descriptions)).mapM fun p => p.schema.map fun s => (p.name, s)) =
      (.ok (properties.map fun e => (e.1, e.2.canonical)) :
        Except SchemaError (List (String × Schema))) := by
  induction properties with
  | nil => rfl
  | cons e properties ih =>
    rw [List.map_cons, List.mapM_cons, ih]
    rfl

/-- Keywords that were read from the document of an object describe its canonical form. -/
theorem object_eq_canonical {k : Keywords} {properties : List (String × Schema)}
    {required : List String} {additional : Option Schema} {descriptions : List (String × Value)}
    (hproperties : k.properties = some (.ok (properties.map (propertyOf descriptions))))
    (hrequired : k.required.getD (.array []) = .array (required.map .str))
    (hadditional : k.additional = additional.map fun s => .ok s.canonical) :
    k.object = .ok (Schema.canonical (.object properties required additional descriptions)) := by
  have hdescriptions :
      ((properties.map (propertyOf descriptions)).filterMap fun p =>
        p.description.map fun d => (p.name, d)) =
        Schema.writtenDescriptions descriptions properties := by
    rw [List.filterMap_map]
    rfl
  rw [Keywords.object, hproperties, hrequired, hadditional, Option.getD_some]
  split
  · next value hempty hvalue =>
    obtain rfl : properties = [] := by simpa using hempty
    obtain ⟨s, rfl, rfl⟩ := Option.map_eq_some_iff.mp hvalue
    rfl
  · next hother =>
    have hobject := Schema.objectOrMap_cases (properties.map fun e => (e.1, e.2.canonical))
      (required.filter fun name => Table.has properties name) (additional.map Schema.canonical)
      (Schema.writtenDescriptions descriptions properties)
    rcases hobject with ⟨s, hempty, hsome, -⟩ | ⟨-, hobject⟩
    · obtain rfl : properties = [] := List.map_eq_nil_iff.mp hempty
      obtain ⟨t, rfl, -⟩ := Option.map_eq_some_iff.mp hsome
      exact (hother _ rfl rfl).elim
    · rw [Schema.canonical_object, hobject]
      refine bind_eq_ok_iff.mpr ⟨_, rfl, bind_eq_ok_iff.mpr ⟨_, mapM_schema descriptions properties,
        bind_eq_ok_iff.mpr ⟨_, rfl, bind_eq_ok_iff.mpr ⟨_,
          requiredNames_texts descriptions properties required, ?_⟩⟩⟩⟩
      rw [hdescriptions]
      cases additional <;> rfl

/-! ## All schemas -/

/-- The name behind a reference to a definition is that of the definition. -/
theorem refName_definitionsPrefix (name : String) : refName (definitionsPrefix ++ name) = name := by
  have hfind : (definitionsPrefixes.find? fun p =>
      p.toList.isPrefixOf (definitionsPrefix ++ name).toList) = some definitionsPrefix := by
    rw [definitionsPrefixes, List.find?_cons_of_pos]
    rw [String.toList_append, List.isPrefixOf_iff_prefix]
    exact List.prefix_append _ _
  rw [refName, hfind]
  show String.ofList ((definitionsPrefix ++ name).toList.drop definitionsPrefix.length) = name
  rw [String.toList_append, ← String.length_toList, List.drop_left, String.ofList_toList]

/-- A literal reads back from the enumeration of its single value. -/
theorem readsBack_literal {value : Scalar} (h : (Schema.literal value).hasSpelledLiteral = true) :
    ReadsBack (.literal value) := by
  cases value with
  | null => cases h
  | float x => cases h
  | bool b => exact ⟨_, rfl, by simp [typed, vocabulary], by cbv⟩
  | int n => exact ⟨_, rfl, by simp [typed, vocabulary], by cbv⟩
  | str s => exact ⟨_, rfl, by simp [typed, vocabulary], by cbv⟩

/-- An enum reads back without its other spellings. -/
theorem readsBack_enum (values : List String) (aliases : List (String × String)) :
    ReadsBack (.enum values aliases) := by
  have htexts : texts (values.map .str) = values := by
    induction values with
    | nil => rfl
    | cons value values ih => simp [texts]
  have hall : (values.map Value.str).all isText = true := by
    simp [isText, Value.kind]
  refine ⟨_, rfl, by simp [typed, vocabulary], ?_⟩
  rw [read_enum, enumeration, hall, htexts]
  rfl

/-- A reference reads back as the name it points to, whether the catalog knows it or not. -/
theorem read_ref_definitionsPrefix (name : String) :
    read (.map [("$ref", .str (definitionsPrefix ++ name))]) = .ok (.ref name) := by
  rw [read_ref, refName_definitionsPrefix]

/-- An object reads back when its properties and the shape of its other keys do. -/
theorem readsBack_object {properties : List (String × Schema)} {additional : Option Schema}
    (required : List String) (descriptions : List (String × Value))
    (hproperties : ∀ s ∈ properties.map (·.2), ReadsBack s)
    (hadditional : ∀ s ∈ additional.toList, ReadsBack s) :
    ReadsBack (.object properties required additional descriptions) := by
  obtain ⟨documents, hdocuments, -, hlist⟩ := exists_propertyEntries descriptions hproperties
  obtain ⟨other, hother, htable⟩ : ∃ other, (match additional with
        | some s => (entries s).map Value.map
        | none => .ok (Value.bool false)) = .ok other ∧
      table? other = additional.map fun s => .ok s.canonical := by
    cases additional with
    | none => exact ⟨.bool false, rfl, rfl⟩
    | some s =>
      obtain ⟨document, hdocument, -, hread⟩ := hadditional s (by simp)
      refine ⟨.map document, by simp only [hdocument]; rfl, ?_⟩
      rw [table?_map, hread]
      rfl
  refine ⟨_, ?_, ?_, (read_object documents required other).trans
    (object_eq_canonical ?_ ?_ htable)⟩
  · cases additional with
    | none =>
      cases hother
      rw [entries, hdocuments]
      rfl
    | some s =>
      obtain ⟨document, hdocument, rfl⟩ := map_eq_ok_iff.mp hother
      simp only [entries, hdocuments, hdocument]
      rfl
  · split <;> simp [typed, vocabulary]
  · rw [hlist]
  · cases required <;> rfl

/-- **Reading back a document gives the canonical form.** Every schema with spelled literals has a
document, and the document reads as the canonical form of the schema. -/
theorem readsBack {s : Schema} (h : s.HasSpelledLiterals) : ReadsBack s := by
  induction s using Schema.ind with
  | step s ih =>
  have hparts : ∀ x ∈ s.parts, ReadsBack x := fun x hx => ih x hx (h.of_mem_parts hx)
  cases s with
  | string => exact ⟨_, rfl, by simp [typed, vocabulary], by cbv⟩
  | int => exact ⟨_, rfl, by simp [typed, vocabulary], by cbv⟩
  | float => exact ⟨_, rfl, by simp [typed, vocabulary], by cbv⟩
  | bool => exact ⟨_, rfl, by simp [typed, vocabulary], by cbv⟩
  | null => exact ⟨_, rfl, by simp [typed, vocabulary], by cbv⟩
  | array s =>
    obtain ⟨document, hdocument, -, hread⟩ := hparts s (by simp [Schema.parts])
    refine ⟨_, by rw [entries, hdocument]; rfl, by simp [typed, vocabulary], ?_⟩
    rw [read_array, hread]
    rfl
  | map key s =>
    obtain ⟨document, hdocument, -, hread⟩ := hparts s (by simp [Schema.parts])
    refine ⟨_, by rw [entries, hdocument]; rfl, by simp [typed, vocabulary],
      (read_object [] [] (.map document)).trans ?_⟩
    rw [table?_map, hread]
    rfl
  | object properties required additional descriptions =>
    refine readsBack_object required descriptions (fun x hx => hparts x ?_)
      (fun x hx => hparts x ?_)
    · exact List.mem_append_left _ hx
    · exact List.mem_append_right _ hx
  | enum values aliases => exact readsBack_enum values aliases
  | ref name => exact ⟨_, rfl, by simp [vocabulary], read_ref_definitionsPrefix name⟩
  | external name => exact ⟨_, rfl, by simp [vocabulary], read_ref_definitionsPrefix name⟩
  | anyOf members =>
    have hmembers : ∀ s ∈ members, ReadsBack s := hparts
    obtain ⟨documents, hdocuments, hall⟩ := exists_memberDocuments hmembers
    refine ⟨_, by rw [entries, hdocuments]; rfl, by simp [vocabulary], ?_⟩
    rw [read_anyOf, hall, Schema.canonical_anyOf]
    rfl
  | optional s =>
    obtain ⟨document, hdocument, -, hread⟩ := hparts s (by simp [Schema.parts])
    refine ⟨_, by rw [entries, hdocument]; rfl, by simp [typed, vocabulary], ?_⟩
    have hnull : read (.map (typed "null")) = .ok .null := by cbv
    rw [read_anyOf, readAll, hread, readAll, hnull, Schema.canonical]
    rfl
  | literal value => exact readsBack_literal (Schema.everywhere_iff.mp h).1

end JsonSchema

/-- A schema written as a document and read again. -/
def Schema.rewritten (s : Schema) : Except SchemaError Schema :=
  s.toDocument >>= Schema.ofDocument

/-- Writing and reading a schema leaves its canonical form. -/
theorem Schema.rewritten_eq {s : Schema} (h : s.HasSpelledLiterals) :
    s.rewritten = .ok s.canonical := by
  obtain ⟨document, hdocument, -, hread⟩ := JsonSchema.readsBack h
  rw [rewritten, toDocument, hdocument]
  exact hread

end ShapedReply
