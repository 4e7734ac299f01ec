import ShapedReply.Proofs.Catalog.Closure
import ShapedReply.Proofs.Catalog.Consistency
import ShapedReply.Proofs.JsonSchema.Meaning
import ShapedReply.Proofs.Schema.Scope

/-!
# Catalogs travel as documents

The document of a schema brings along the definitions that the schema needs, and an empty catalog
can take them in. **The schema that is read from the document accepts there what the original
accepts here** (`check_ingest_document`), however the definitions refer to each other, if all
literals can be written. That a literal cannot be written shows in checks only: the document is made
and taken in all the same, and means something else then (`check_ingest_document_unwritable`).

Three things happen to a definition on its way (`Definition.exchanged`): it is written and read,
which leaves its canonical form; its required names are turned into optional shapes for the others;
and they are derived from the shapes again. Nothing is lost in the last two, since a class requires
exactly the properties that are not optional, and a canonical form is optional when the schema was
(`isOptional_canonical`).
-/

namespace ShapedReply

open Check JsonSchema

/-! ## Optional shapes -/

namespace Schema

/-- A choice is optional if one of its members is. -/
theorem anyOptional_eq_any (members : List Schema) :
    anyOptional members = members.any isOptional := by
  induction members with
  | nil => rfl
  | cons s members ih => rw [anyOptional, ih, List.any_cons]

/-- A choice is optional when one of its members is. -/
theorem isOptional_choice (members : List Schema) :
    (choice members).isOptional = members.any isOptional := by
  have hnull (h : .null ∈ members) : members.any isOptional = true :=
    List.any_eq_true.mpr ⟨.null, h, rfl⟩
  rcases choice_cases members with ⟨-, heq⟩ | ⟨hmem, -, heq⟩ | ⟨hmem, -, heq⟩
  · rw [heq, isOptional, anyOptional_eq_any]
  · rw [heq, isOptional, hnull hmem]
  · rw [heq, isOptional, hnull hmem]

/-- The canonical form is optional when the schema is. -/
theorem isOptional_canonical (s : Schema) : s.canonical.isOptional = s.isOptional := by
  induction s using Schema.ind with
  | step s ih =>
  cases s with
  | anyOf members =>
    rw [canonical_anyOf, isOptional_choice, isOptional, anyOptional_eq_any, List.any_map,
      Bool.eq_iff_iff, List.any_eq_true, List.any_eq_true]
    refine exists_congr fun s => and_congr_right fun hs => ?_
    rw [Function.comp, ih s hs]
  | optional s =>
    rw [canonical, isOptional_choice]
    simp [isOptional]
  | object properties required additional descriptions =>
    rw [canonical_object]
    rcases objectOrMap_cases (properties.map fun e => (e.1, e.2.canonical))
      (required.filter fun name => Table.has properties name) (additional.map canonical)
      (writtenDescriptions descriptions properties) with ⟨s, -, -, heq⟩ | ⟨-, heq⟩
    · rw [heq]
      rfl
    · rw [heq]
      rfl
  | literal value => cases value <;> rfl
  | _ => rfl

end Schema

/-! ## Definitions on their way -/

namespace Definition

/-- What is registered for a definition that comes out of a document. -/
def exchanged : Definition → Definition
  | .enum values _ => EnumValue.define (Catalog.valuesOf values [])
  | .object properties required descriptions =>
    ClassProperty.define (Catalog.propertiesOf (properties.map fun e => (e.1, e.2.canonical))
      (required.filter fun name => Table.has properties name)
      (Schema.writtenDescriptions descriptions properties))

/-- The canonical form of an object that is known under a name. -/
theorem canonical_object (properties : Table Schema) (required : List String)
    (descriptions : Table Value) :
    (Definition.object properties required descriptions).toSchema.canonical =
      .object (properties.map fun e => (e.1, e.2.canonical))
        (required.filter fun name => Table.has properties name) none
        (Schema.writtenDescriptions descriptions properties) := by
  rw [toSchema, Schema.canonical_object]
  cases properties <;> rfl

/-- No value of an enum and no property of an object is there twice. -/
def IsDistinct : Definition → Prop
  | .enum values _ => values.Nodup
  | .object properties _ _ => (Table.names properties).Nodup

/-- A definition of a catalog: declared values, or declared properties. -/
def IsDeclared (d : Definition) : Prop :=
  (∃ values, d = EnumValue.define values) ∨ ∃ properties, d = ClassProperty.define properties

end Definition

/-- A definition has writable literals after the exchange if it had them before. -/
theorem Definition.hasWritableLiterals_exchanged {d : Definition}
    (h : d.toSchema.HasWritableLiterals) : d.exchanged.toSchema.HasWritableLiterals := by
  cases d with
  | enum values aliases => rfl
  | object properties required descriptions =>
    refine Schema.hasWritableLiterals_iff.mpr ⟨rfl, fun x hx => ?_⟩
    rw [Definition.exchanged, ClassProperty.define, Definition.toSchema, Schema.parts,
      Option.toList_none, List.append_nil, List.map_map, Catalog.propertiesOf, List.map_map,
      List.map_map] at hx
    obtain ⟨e, he, rfl⟩ := List.mem_map.mp hx
    have hcanonical : e.2.canonical.HasWritableLiterals :=
      (h.of_mem_parts (List.mem_append_left _ (List.mem_map_of_mem he))).canonical
    simp only [Function.comp_apply]
    split
    · exact hcanonical
    · exact Schema.hasWritableLiterals_iff.mpr ⟨rfl, List.forall_mem_singleton.mpr hcanonical⟩

variable {resolve : Resolver}

/-- Turning what is not required into optional shapes changes nothing where exactly the shapes that
are not optional are required. -/
theorem define_propertiesOf {properties : Table Schema} {required : List String}
    (h : required = (properties.filter fun e => !e.2.isOptional).map (·.1))
    (descriptions : Table Value) :
    ∃ descriptions', ClassProperty.define (Catalog.propertiesOf properties required descriptions) =
      .object properties required descriptions' := by
  have hkept : Catalog.propertiesOf properties required descriptions =
      properties.map fun e =>
        { name := e.1, schema := e.2, description := descriptions.get? e.1 } := by
    refine List.map_congr_left fun e he => ?_
    have hschema : (required.contains e.1 || e.2.isOptional) = true := by
      rcases hoptional : e.2.isOptional with _ | _
      · have hrequired : e.1 ∈ required := by
          rw [h]
          exact List.mem_map_of_mem (List.mem_filter.mpr ⟨he, by simp [hoptional]⟩)
        simp [hrequired]
      · simp
    simp only [hschema, if_true]
  refine ⟨ClassProperty.descriptions (Catalog.propertiesOf properties required descriptions), ?_⟩
  have hproperties : ((Catalog.propertiesOf properties required descriptions).map
      fun p => (p.name, p.schema)) = properties := by
    rw [hkept, List.map_map]
    exact List.map_id' properties
  have hrequired : ((Catalog.propertiesOf properties required descriptions).filter
      fun p => !p.schema.isOptional).map (·.name) = required := by
    rw [hkept, List.filter_map, List.map_map, h]
    rfl
  rw [ClassProperty.define, hproperties, hrequired]

/-- A declared definition means after the exchange what its canonical form means. -/
theorem accepts_exchanged {d : Definition} (hd : d.IsDeclared) (v : Value) :
    Accepts resolve v d.exchanged.toSchema ↔ Accepts resolve v d.toSchema.canonical := by
  rcases hd with ⟨values, rfl⟩ | ⟨properties, rfl⟩
  · have hvalues (texts : List String) : (Catalog.valuesOf texts []).map (·.value) = texts := by
      rw [Catalog.valuesOf, List.map_map]
      exact List.map_id' texts
    rw [EnumValue.define, Definition.exchanged, EnumValue.define, hvalues, Definition.toSchema,
      Definition.toSchema, Schema.canonical, accepts_enum, accepts_enum]
  · rw [ClassProperty.define, Definition.exchanged, Definition.toSchema, Schema.canonical_object]
    generalize hps : (properties.map fun p => (p.name, p.schema)) = ps
    generalize hrs : ((properties.filter fun p => !p.schema.isOptional).map (·.name)) = rs
    -- Exactly the shapes that are not optional are required, before and after.
    have hrequired : rs = (ps.filter fun e => !e.2.isOptional).map (·.1) := by
      rw [← hps, ← hrs, List.filter_map, List.map_map]
      rfl
    have hdeclared : (rs.filter fun name => Table.has ps name) = rs := by
      refine List.filter_eq_self.mpr fun name hname => Table.has_iff.mpr ?_
      rw [hrequired] at hname
      obtain ⟨e, he, rfl⟩ := List.mem_map.mp hname
      exact List.mem_map_of_mem (List.mem_filter.mp he).1
    have hcanonical : rs = ((ps.map fun e => (e.1, e.2.canonical)).filter
        fun e => !e.2.isOptional).map (·.1) := by
      rw [hrequired, List.filter_map, List.map_map]
      simp only [Function.comp_def, Schema.isOptional_canonical]
    rw [hdeclared]
    obtain ⟨descriptions, heq⟩ := define_propertiesOf hcanonical
      (Schema.writtenDescriptions (ClassProperty.descriptions properties) ps)
    rw [heq, Definition.toSchema, accepts_objectOrMap, accepts_object, accepts_object]
    · rfl
    · intro name hname
      rw [hcanonical] at hname
      obtain ⟨e, he, rfl⟩ := List.mem_map.mp hname
      exact List.mem_map_of_mem (List.mem_filter.mp he).1

namespace Catalog

/-! ## What is known after registering -/

variable {c : Catalog} {name : String}

/-- A free name is the name of no enum and of no class. -/
theorem get?_eq_none_of_free (h : c.has name = false) :
    c.enums.get? name = none ∧ c.classes.get? name = none := by
  rw [has, Bool.or_eq_false_iff] at h
  exact ⟨Option.isSome_eq_false_iff.mp h.1 |> Option.isNone_iff_eq_none.mp,
    Option.isSome_eq_false_iff.mp h.2 |> Option.isNone_iff_eq_none.mp⟩

/-- What a catalog knows is declared. -/
theorem isDeclared_of_resolve {d : Definition} (h : c.resolve name = some d) : d.IsDeclared := by
  rcases resolve_eq_some h with ⟨e, -, rfl⟩ | ⟨e, -, rfl⟩
  · exact .inl ⟨e.values, rfl⟩
  · exact .inr ⟨e.declared, rfl⟩

/-- What a consistent catalog knows has no value, spelling or property twice. -/
theorem IsConsistent.isDistinct_of_resolve (hc : c.IsConsistent) {d : Definition}
    (h : c.resolve name = some d) : d.IsDistinct := by
  rcases resolve_eq_some h with ⟨e, he, rfl⟩ | ⟨e, he, rfl⟩
  · exact (hc.enums _ (Table.mem_of_get? he)).2.nodup
  · have hentry := (hc.classes _ (Table.mem_of_get? he)).2
    rw [ClassEntry.define, ClassProperty.define, Definition.IsDistinct, Table.names, List.map_map]
    exact hentry.names_declared ▸ hentry.nodup

/-- A new enum takes distinct values as they are. -/
theorem values_foldl_add_new {values : List EnumValue} (h : (values.map (·.value)).Nodup)
    (name : String) : (values.foldl EnumEntry.add { name }).values = values :=
  ((EnumEntry.isConsistent_new name).values_foldl_add values).trans (firsts_of_nodup h)

/-- A new class takes distinct properties as they are. -/
theorem declared_foldl_add_new {properties : List ClassProperty}
    (h : (properties.map (·.name)).Nodup) (name : String) :
    (properties.foldl ClassEntry.add { name }).declared = properties :=
  ((ClassEntry.isConsistent_new name).declared_foldl_add properties).trans (firsts_of_nodup h)

/-- Under a free name, an enum is added with all its values. -/
theorem perform_addValues_of_free (values : List EnumValue) (h : c.has name = false) :
    perform (addValues name values) c =
      (.ok (), { c with enums := c.enums ++ [(name, values.foldl EnumEntry.add { name })] }) := by
  obtain ⟨henum, hclass⟩ := get?_eq_none_of_free h
  have hnew : name ∉ Table.names c.enums := Table.get?_eq_none_iff.mp henum
  have hfold (vs : List EnumValue) (c : Catalog) : vs.foldl (fun c v => c.withValue name v) c =
      { c with enums := vs.foldl (fun t v => t.modify name (·.add v)) c.enums } := by
    induction vs generalizing c with
    | nil => rfl
    | cons v vs ih => rw [List.foldl_cons, List.foldl_cons, withValue, ih]
  rw [perform_addValues, hfold]
  simp [Table.has, henum, hclass, Table.put_of_not_mem hnew,
    Table.foldl_modify_concat hnew EnumEntry.add]

/-- Under a free name, a class is added with all its properties. -/
theorem perform_addProperties_of_free (properties : List ClassProperty) (h : c.has name = false) :
    perform (addProperties name properties) c =
      (.ok (), { c with
        classes := c.classes ++ [(name, properties.foldl ClassEntry.add { name })] }) := by
  obtain ⟨henum, hclass⟩ := get?_eq_none_of_free h
  have hnew : name ∉ Table.names c.classes := Table.get?_eq_none_iff.mp hclass
  have hfold (ps : List ClassProperty) (c : Catalog) :
      ps.foldl (fun c p => c.withProperty name p) c =
      { c with classes := ps.foldl (fun t p => t.modify name (·.add p)) c.classes } := by
    induction ps generalizing c with
    | nil => rfl
    | cons p ps ih => rw [List.foldl_cons, List.foldl_cons, withProperty, ih]
  rw [perform_addProperties, hfold]
  simp [Table.has, henum, hclass, Table.put_of_not_mem hnew,
    Table.foldl_modify_concat hnew ClassEntry.add]

/-- Registering an enum of distinct values under a free name adds its values there and changes
nothing else. -/
theorem perform_register_enum {values : List String} (h : c.has name = false)
    (hvalues : values.Nodup) (aliases : Table String) :
    ∃ c', perform (register name (.enum values aliases)) c = (.ok (), c') ∧
      ∀ other, c'.resolve other =
        if name = other then some (EnumValue.define (valuesOf values aliases))
        else c.resolve other := by
  obtain ⟨henum, -⟩ := get?_eq_none_of_free h
  have hdistinct : ((valuesOf values aliases).map (·.value)).Nodup := by
    rw [valuesOf, List.map_map]
    exact (List.map_id' values).symm ▸ hvalues
  refine ⟨_, perform_addValues_of_free (valuesOf values aliases) h, fun other => ?_⟩
  rw [resolve_eq, resolve_eq, Table.get?_concat]
  by_cases heq : name = other
  · subst heq
    simp [henum, EnumEntry.define, values_foldl_add_new hdistinct]
  · simp [heq]

/-- Registering an object of distinct properties under a free name adds its properties there and
changes nothing else. -/
theorem perform_register_object {properties : Table Schema} (h : c.has name = false)
    (hnames : (Table.names properties).Nodup) (required : List String) (additional : Option Schema)
    (descriptions : Table Value) :
    ∃ c', perform (register name (.object properties required additional descriptions)) c =
      (.ok (), c') ∧
      ∀ other, c'.resolve other =
        if name = other then some (ClassProperty.define
          (propertiesOf properties required descriptions))
        else c.resolve other := by
  obtain ⟨henum, hclass⟩ := get?_eq_none_of_free h
  have hdistinct : ((propertiesOf properties required descriptions).map (·.name)).Nodup := by
    rw [propertiesOf, List.map_map]
    exact hnames
  refine ⟨_, perform_addProperties_of_free _ h, fun other => ?_⟩
  rw [resolve_eq, resolve_eq, Table.get?_concat]
  by_cases heq : name = other
  · subst heq
    simp [henum, hclass, ClassEntry.define, declared_foldl_add_new hdistinct]
  · simp [heq]

/-- Registering the canonical form of a definition under a free name adds the exchanged definition
there and changes nothing else. -/
theorem perform_register {d : Definition} (h : c.has name = false) (hd : d.IsDistinct) :
    ∃ c', perform (register name d.toSchema.canonical) c = (.ok (), c') ∧
      ∀ other, c'.resolve other = if name = other then some d.exchanged else c.resolve other := by
  cases d with
  | enum values aliases => exact perform_register_enum h hd []
  | object properties required descriptions =>
    rw [Definition.canonical_object]
    refine perform_register_object h ?_ _ _ _
    rw [Table.names, List.map_map]
    exact hd

/-! ## Taking in a document -/

/-- Definitions whose documents read back are registered one after the other. -/
theorem perform_ingestAll {definitions : Table Definition} {documents : Table Value}
    (hdocuments : propertyList documents =
      (definitions.mapEntries Definition.toSchema).map (propertyOf []))
    (hnodup : (Table.names definitions).Nodup) (hdistinct : ∀ e ∈ definitions, e.2.IsDistinct)
    (hfree : ∀ name ∈ Table.names definitions, c.has name = false) :
    ∃ c', perform (ingestAll documents) c = (.ok (Table.names definitions), c') ∧
      ∀ name, c'.resolve name =
        ((Table.get? definitions name).map Definition.exchanged).or (c.resolve name) := by
  induction definitions generalizing c documents with
  | nil =>
    cases documents with
    | nil => exact ⟨c, rfl, fun _ => rfl⟩
    | cons e documents => cases hdocuments
  | cons e definitions ih =>
    obtain ⟨name, d⟩ := e
    cases documents with
    | nil => cases hdocuments
    | cons f documents =>
      obtain ⟨k, document⟩ := f
      rw [propertyList] at hdocuments
      obtain ⟨hfirst, hrest⟩ := List.cons.inj hdocuments
      obtain ⟨rfl, -, hread⟩ := Property.mk.inj hfirst
      rw [Table.names_cons, List.nodup_cons] at hnodup
      rw [List.forall_mem_cons] at hdistinct
      rw [Table.names_cons, List.forall_mem_cons] at hfree
      obtain ⟨c₁, hregister, hresolve₁⟩ := perform_register hfree.1 hdistinct.1
      have hfree₁ : ∀ other ∈ Table.names definitions, c₁.has other = false := by
        intro other hother
        have hne : k ≠ other := fun heq => hnodup.1 (heq ▸ hother)
        rw [has_eq_isSome_resolve, hresolve₁, if_neg hne, ← has_eq_isSome_resolve]
        exact hfree.2 other hother
      obtain ⟨c₂, hingest, hresolve₂⟩ := ih hrest hnodup.2 hdistinct.2 hfree₁
      refine ⟨c₂, ?_, fun other => ?_⟩
      · have hschema : perform (readDocument document) c = (.ok d.toSchema.canonical, c) := by
          rw [readDocument, Schema.ofDocument, hread]
          rfl
        rw [ingestAll, perform_bind_of_ok hschema]
        -- The canonical form of a definition is an enum or an object, so it is registered.
        have hnext : perform (register k d.toSchema.canonical >>= fun _ =>
            ingestAll documents >>= fun names => pure (k :: names)) c =
              (.ok (k :: Table.names definitions), c₂) := by
          rw [perform_bind_of_ok hregister, perform_bind_of_ok hingest, perform_pure]
        cases d with
        | enum values aliases => exact hnext
        | object properties required descriptions =>
          rw [Definition.canonical_object] at hnext ⊢
          exact hnext
      · rw [hresolve₂, hresolve₁, Table.get?_cons]
        by_cases heq : k = other
        · subst heq
          simp [Table.get?_eq_none_iff.mpr hnodup.1]
        · simp [heq]

/-- The names that a document defines. -/
def definedNames (document : Table Value) : List String :=
  match document.get? "$defs" with
  | some (.map definitions) => Table.names definitions
  | _ => []

/-- A document finds the definitions that were written into it. -/
theorem definitionsOf_put {root : Table Value} (h : Table.names root ⊆ vocabulary)
    (named : Table Value) {document : Table Value}
    (hdocument : document = if named.isEmpty then root else Table.put root "$defs" (.map named)) :
    definitionsOf document = .map named ∧ definedNames document = Table.names named := by
  rw [hdocument, definitionsOf, definedNames]
  cases named with
  | nil =>
    have hnew : Table.get? root "$defs" = none := get?_eq_none_of_vocabulary h (by decide)
    have hold : Table.get? root "definitions" = none := get?_eq_none_of_vocabulary h (by decide)
    simp [hnew, hold]
  | cons e named => simp [Table.get?_put_self, Value.isVoid]

/-- Where all literals are spelled, a schema has a document with the definitions that it needs, each
of which reads back, and so does the schema. -/
theorem exists_document {s : Schema} (hs : s.HasSpelledLiterals)
    (hneeded : ∀ e ∈ c.needed s, e.2.toSchema.HasSpelledLiterals) :
    ∃ document named, c.document s = .ok (.map document) ∧
      Schema.ofDocument (.map document) = .ok s.canonical ∧
      definitionsOf document = .map named ∧ definedNames document = Table.names (c.needed s) ∧
      propertyList named = ((c.needed s).mapEntries Definition.toSchema).map (propertyOf []) := by
  have hdefinitions : ∀ x ∈ ((c.needed s).mapEntries Definition.toSchema).map (·.2),
      ReadsBack x := by
    intro x hx
    rw [Table.mapEntries, List.map_map] at hx
    obtain ⟨e, he, rfl⟩ := List.mem_map.mp hx
    exact readsBack (hneeded e he)
  obtain ⟨root, hroot, hwords, hread⟩ := readsBack hs
  obtain ⟨named, hnamed, hnames, hlist⟩ := exists_propertyEntries [] hdefinitions
  obtain ⟨hfound, hdefined⟩ := definitionsOf_put hwords named rfl
  refine ⟨_, named, ?_, ?_, hfound, ?_, hlist⟩
  · rw [document, Schema.toDocumentWith, hroot, definitionEntries, hnamed]
    rfl
  · rw [Schema.ofDocument]
    split
    · exact hread
    · rw [read_put isNoKeyword_defs, hread]
  · rw [hdefined, ← Table.names_mapEntries Definition.toSchema (c.needed s)]
    exact hnames

/-- A catalog that knows what a schema needs, after the exchange, has writable literals if the old
one has. -/
theorem hasWritableLiterals_of_resolve {c' : Catalog} {s : Schema}
    (hwritable : c.resolve.HasWritableLiterals)
    (hresolve : ∀ name, c'.resolve name = (Table.get? (c.needed s) name).map Definition.exchanged) :
    c'.resolve.HasWritableLiterals := by
  intro name d' hd'
  rw [hresolve] at hd'
  obtain ⟨d, hd, rfl⟩ := Option.map_eq_some_iff.mp hd'
  exact Definition.hasWritableLiterals_exchanged
    (hwritable name d ((covers_needed c s).sound hd))

/-- A catalog that knows what a schema needs, after the exchange, means the same by every name that
the schema comes upon. -/
theorem simulates_of_resolve {c' : Catalog} {s : Schema}
    (hportable : ∀ e ∈ c.definitions, e.2.toSchema.IsPortable)
    (hwritable : c.resolve.HasWritableLiterals)
    (hresolve : ∀ name, c'.resolve name = (Table.get? (c.needed s) name).map Definition.exchanged) :
    Simulates (fun name => Table.get? (c.needed s) name = c.resolve name) c.resolve c'.resolve where
  means {name} hname v := by
    have hwritable' := hasWritableLiterals_of_resolve hwritable hresolve
    rw [accepts_ref, hresolve, hname]
    have hmeans {d : Definition} (hd : c.resolve name = some d) :
        Accepts c'.resolve v d.exchanged.toSchema ↔ Accepts c'.resolve v d.toSchema :=
      (accepts_exchanged (isDeclared_of_resolve hd) v).trans
        (accepts_canonical hwritable' (hportable (name, d) (Table.mem_of_get? hd))
          (hwritable name d hd) v)
    constructor
    · intro h d hd
      exact (hmeans hd).mp (h d.exchanged (by rw [hd]; rfl))
    · intro h d' hd'
      obtain ⟨d, hd, rfl⟩ := Option.map_eq_some_iff.mp hd'
      exact (hmeans hd).mpr (h d hd)
  closed {name d} hname hd other hother :=
    (covers_needed c s).closed (Table.mem_of_get? (hname.trans hd)) hother

/-- **Catalogs travel as documents.** Take a reached catalog and a schema, all portable. The schema
has a document with the definitions that it needs; an empty catalog takes in that document and then
knows exactly the names that the document defines; and the schema that is read from the document
accepts in the new catalog what the given one accepts in the old, if the whole numbers among the
literals of both have at most 4300 digits. -/
theorem check_ingest_document {c : Catalog} {s : Schema} (hc : c.IsReached) (hs : s.IsPortable)
    (hportable : ∀ e ∈ c.definitions, e.2.toSchema.IsPortable) :
    ∃ document c' t, c.document s = .ok (.map document) ∧
      perform (ingest (.map document)) {} = (.ok (definedNames document), c') ∧
      (∀ name, c'.has name = true ↔ name ∈ definedNames document) ∧
      Schema.ofDocument (.map document) = .ok t ∧
      (s.HasWritableLiterals → c.resolve.HasWritableLiterals →
        ∀ v, check c'.resolve v t = .ok () ↔ check c.resolve v s = .ok ()) := by
  have hcovers := covers_needed c s
  have hknown : ∀ e ∈ c.needed s, c.resolve e.1 = some e.2 := fun e he =>
    hcovers.sound (Table.get?_of_mem hcovers.nodup he)
  have hneeded : ∀ e ∈ c.needed s, e.2.toSchema.HasSpelledLiterals := fun e he =>
    (hportable e (Table.mem_of_get? (hknown e he))).hasSpelledLiterals
  obtain ⟨document, named, hdocument, hread, hfound, hdefined, hlist⟩ :=
    exists_document hs.hasSpelledLiterals hneeded
  obtain ⟨c', hperform, hresolve⟩ := perform_ingestAll (c := {}) hlist hcovers.nodup
    (fun e he => hc.isConsistent.isDistinct_of_resolve (hknown e he)) (fun _ _ => rfl)
  have hresolve' : ∀ name,
      c'.resolve name = (Table.get? (c.needed s) name).map Definition.exchanged := fun name =>
    (hresolve name).trans (Option.or_none)
  refine ⟨document, c', s.canonical, hdocument, ?_, ?_, hread, ?_⟩
  · rw [hdefined, ingest]
    simp only [hfound]
    exact hperform
  · intro name
    rw [hdefined, has_eq_isSome_resolve, hresolve', Option.isSome_map, ← Table.has_iff]
    rfl
  · intro hwritable hresolved v
    have hresolved' := hasWritableLiterals_of_resolve hresolved hresolve'
    refine (accepts_canonical hresolved' hs hwritable v).trans ?_
    exact (simulates_of_resolve hportable hresolved hresolve').accepts_iff hresolved hresolved' v s
      (fun name => hcovers.asked) hwritable

/-- Nodes and edges that refer to each other, with an enum that has another spelling, a property
that is null or a literal string, and one that is a map in the guise of an object. -/
def graph : Catalog :=
  (([.addValues "Color" [{ value := "red", spelling := some "crimson" }, { value := "blue" }],
      .addProperties "Node" [{ name := "edges", schema := .array (.ref "Edge") },
        { name := "color", schema := .optional (.ref "Color") }],
      .addProperties "Edge"
        [{ name := "target", schema := .ref "Node", description := some (.str "") },
        { name := "kind", schema := .anyOf [.null, .literal (.str "loop")] },
        { name := "weights", schema := .object [] [] (some .int) [] }],
      .addProperties "Unused" []] : List Archive.Operation).foldl Archive.after {}).current

/-- Nodes and edges that refer to each other, behind the values of a map. -/
theorem check_ingest_document_graph :
    graph.IsReached ∧ (Schema.map .int (.ref "Node")).IsPortable ∧
    (∀ e ∈ graph.definitions, e.2.toSchema.IsPortable) ∧ graph.resolve.HasWritableLiterals ∧
    ∃ document c' t, graph.document (.map .int (.ref "Node")) = .ok (.map document) ∧
      perform (ingest (.map document)) {} = (.ok (definedNames document), c') ∧
      (∀ name, c'.has name = true ↔ name ∈ definedNames document) ∧
      Schema.ofDocument (.map document) = .ok t ∧
      ∀ v, check c'.resolve v t = .ok () ↔
        check graph.resolve v (.map .int (.ref "Node")) = .ok () := by
  have hreached : graph.IsReached := ⟨_, rfl⟩
  have hschema : (Schema.map .int (.ref "Node")).IsPortable := by cbv
  have hportable : ∀ e ∈ graph.definitions, e.2.toSchema.IsPortable :=
    List.all_eq_true.mp (by cbv)
  have hwritable : ∀ e ∈ graph.definitions, e.2.toSchema.HasWritableLiterals :=
    List.all_eq_true.mp (by cbv)
  have hresolved : graph.resolve.HasWritableLiterals := fun name d hd =>
    hwritable (name, d) (Table.mem_of_get? hd)
  obtain ⟨document, c', t, hdocument, hingest, hnames, hread, hmeaning⟩ :=
    check_ingest_document hreached hschema hportable
  exact ⟨hreached, hschema, hportable, hresolved, document, c', t, hdocument, hingest, hnames,
    hread, hmeaning rfl hresolved⟩

/-- Null is accepted after the exchange, and not before it, by a union with a literal in front of
null that has too many digits to be written: in what is read from the document, null comes first. -/
theorem check_ingest_document_unwritable :
    unwritableOrNull.IsPortable ∧
    ∃ document c' t, ({} : Catalog).document unwritableOrNull = .ok (.map document) ∧
      perform (ingest (.map document)) {} = (.ok [], c') ∧
      Schema.ofDocument (.map document) = .ok t ∧
      check c'.resolve .null t = .ok () ∧
      check ({} : Catalog).resolve .null unwritableOrNull = .error .integerUnwritable := by
  refine ⟨rfl, ?_⟩
  have hexchange : ∃ document c' t,
      ({} : Catalog).document unwritableOrNull = .ok (.map document) ∧
      perform (ingest (.map document)) {} = (.ok [], c') ∧
      Schema.ofDocument (.map document) = .ok t ∧ check c'.resolve .null t = .ok () := by
    unfold unwritableOrNull Scalar.unwritable
    generalize Int.ofNat (10 ^ maxIntegerDigits) = n
    exact ⟨_, _, .optional (.literal (.int n)), rfl, rfl, rfl, rfl⟩
  obtain ⟨document, c', t, hdocument, hingest, hread, hcheck⟩ := hexchange
  exact ⟨document, c', t, hdocument, hingest, hread, hcheck, check_unwritableOrNull⟩

end Catalog

end ShapedReply
