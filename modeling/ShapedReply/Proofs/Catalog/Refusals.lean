import ShapedReply.Proofs.Catalog.Growth

/-!
# What a refused operation leaves behind

An operation makes its declarations one after the other and takes none of them back. When one is
refused, **the catalog is left exactly as the declarations before it made it**, and the refused one
leaves no trace (`refused_leaves`).

So operations that declare one thing only leave everything as it is. The other four stop halfway:
the definitions of a document stand up to the refused one, and a class that may be extended is
marked before anything else is asked of it. An extension is one declaration too, but what it adds
comes from outside: if the source fails, the entry is there with what was delivered.

* `Archive.Operation.action`: an operation at work on the catalog in use; it makes the declarations
  of its plan (`realizes_operation`).
* `exists_refused`: where declarations stop.
* `dynamic_carryOut`: declarations without a new mark keep the marks.
* `openEnumOf_error`: opening the enum of a class never leaves an enum behind when it fails.
-/

namespace ShapedReply

namespace Archive.Operation

/-- An operation at work on the catalog in use. Operations through a handle and clearing work on the
archive; they are never refused. -/
def action : Operation → Catalog.Action Unit
  | .openEnum name => Catalog.openEnum name
  | .openClass name => Catalog.openClass name
  | .addValues name values => Catalog.addValues name values
  | .addProperties name properties => Catalog.addProperties name properties
  | .register name s => Catalog.register name s
  | .registerDocument name document => Catalog.registerDocument name document
  | .registerClass t => do let _ ← Catalog.registerClass t
  | .ingest document => do let _ ← Catalog.ingest document
  | .markDynamic name => Catalog.markDynamic name
  | .markClass t => Catalog.markClass t
  | .openEnumOf t => Catalog.openEnumOf t
  | .openClassOf t => Catalog.openClassOf t
  | .extendEnum name values => Catalog.extendEnum name values
  | .extendClass name properties => Catalog.extendClass name properties
  | .addValue .. | .addProperty .. | .clear => pure ()

/-- Whether an operation declares one thing at most, perhaps after demanding a mark, and takes it
from no source that fails. -/
def declaresOnce : Operation → Bool
  | .ingest _ | .registerClass _ | .openEnumOf _ | .openClassOf _ => false
  | .extendEnum _ values => values.failure.isNone
  | .extendClass _ properties => properties.failure.isNone
  | _ => true

end Archive.Operation

namespace Catalog

open Declaration

variable {c c' : Catalog} {ds : List Declaration} {reason : CatalogError}

/-- An operation makes the declarations of its plan. -/
theorem realizes_operation (o : Archive.Operation) (c : Catalog) :
    Realizes o.action (o.plan c) c := by
  cases o with
  | openEnum name => exact realizes_openEnum name c
  | openClass name => exact realizes_openClass name c
  | addValues name values => exact realizes_action (.enumWith name values) c
  | addProperties name properties => exact realizes_action (.classWith name properties) c
  | register name s => exact realizes_register name s c
  | registerDocument name document => exact realizes_registerDocument name document c
  | registerClass t => exact (realizes_registerClass t c).bind_pure _
  | ingest document => exact (realizes_ingest document c).bind_pure _
  | markDynamic name => exact realizes_action (.mark name) c
  | markClass t => exact realizes_markClass t c
  | openEnumOf t => exact realizes_openEnumOf t c
  | openClassOf t => exact realizes_openClassOf t c
  | extendEnum name values => exact realizes_extendEnum name values c
  | extendClass name properties => exact realizes_extendClass name properties c
  | addValue h v => exact realizes_pure () c
  | addProperty h p => exact realizes_pure () c
  | clear => exact realizes_pure () c

/-- An operation is refused where its declarations are. -/
theorem carryOut_plan_eq_error {o : Archive.Operation}
    (h : perform o.action c = (.error reason, c')) :
    perform (carryOut (o.plan c)) c = (.error reason, c') := by
  have hplan := realizes_operation o c
  rw [Realizes, h] at hplan
  exact hplan

/-! ## Where declarations stop -/

/-- Declarations stop at the first one, which then changes nothing, or at a later one. -/
theorem carryOut_cons_eq_error {d : Declaration}
    (h : perform (carryOut (d :: ds)) c = (.error reason, c')) :
    (perform d.action c = (.error reason, c') ∧ c' = c) ∨
      ∃ c₁, perform d.action c = (.ok (), c₁) ∧ perform (carryOut ds) c₁ = (.error reason, c') := by
  rw [carryOut] at h
  rcases hperform : perform d.action c with ⟨e | u, c₁⟩
  · rw [perform_bind_of_error hperform] at h
    cases h
    exact .inl ⟨rfl, eq_of_refused hperform⟩
  · rw [perform_bind_of_ok hperform] at h
    exact .inr ⟨c₁, rfl, h⟩

/-- Declarations stop at one that is refused, in the catalog that those before it made. -/
theorem exists_refused (h : perform (carryOut ds) c = (.error reason, c')) :
    ∃ done refused later, ds = done ++ refused :: later ∧
      perform (carryOut done) c = (.ok (), c') ∧
      perform refused.action c' = (.error reason, c') := by
  induction ds generalizing c with
  | nil => cases h
  | cons d ds ih =>
    rcases carryOut_cons_eq_error h with ⟨hrefused, rfl⟩ | ⟨c₁, hperform, hrest⟩
    · exact ⟨[], d, ds, rfl, rfl, hrefused⟩
    · obtain ⟨done, refused, later, rfl, hdone, hrefused⟩ := ih hrest
      refine ⟨d :: done, refused, later, rfl, ?_, hrefused⟩
      rw [carryOut, perform_bind_of_ok hperform]
      exact hdone

/-- Demanding marks changes nothing. -/
theorem eq_of_demands (hdemands : ∀ d ∈ ds, ∃ name, d = .marked name)
    (h : perform (carryOut ds) c = (.ok (), c')) : c' = c := by
  induction ds with
  | nil =>
    cases h
    rfl
  | cons d ds ih =>
    rw [List.forall_mem_cons] at hdemands
    obtain ⟨⟨name, rfl⟩, hrest⟩ := hdemands
    rw [carryOut] at h
    rcases hperform : perform (action (.marked name)) c with ⟨e | u, c₁⟩
    · rw [perform_bind_of_error hperform] at h
      cases h
    · rw [perform_bind_of_ok hperform] at h
      obtain rfl := eq_of_requireDynamic hperform
      exact ih hrest h

/-- Before the last declaration of an operation that declares one thing, marks are demanded only. -/
theorem demands_of_declaresOnce {o : Archive.Operation} (h : o.declaresOnce = true) :
    ∀ d ∈ (o.plan c).dropLast, ∃ name, d = .marked name := by
  cases o with
  | extendEnum name values | extendClass name values =>
    have hends : endOf values = [] := by
      rw [endOf, Option.isNone_iff_eq_none.mp h]
    simp [Archive.Operation.plan, hends]
  | registerDocument name document => cases document <;> simp [Archive.Operation.plan]
  | markClass t =>
    rw [Archive.Operation.plan, marks]
    split <;> simp
  | ingest _ | registerClass _ | openEnumOf _ | openClassOf _ => cases h
  | _ => simp [Archive.Operation.plan]

/-! ## Marks -/

/-- A declaration other than a new mark keeps the marks. -/
theorem dynamic_action {d : Declaration} (h : ∀ name, d = .mark name → name ∈ c.dynamic) :
    (perform d.action c).2.dynamic = c.dynamic := by
  cases d with
  | enumWith name values =>
    rw [action, perform_addValues]
    split
    · rfl
    · refine (foldl_keeps Catalog.dynamic (by intros; rfl) _ _).trans ?_
      split <;> rfl
  | classWith name properties =>
    rw [action, perform_addProperties]
    split
    · rfl
    · refine (foldl_keeps Catalog.dynamic (by intros; rfl) _ _).trans ?_
      split <;> rfl
  | mark name =>
    show (c.withDynamic name).dynamic = c.dynamic
    rw [withDynamic, if_pos (List.contains_iff_mem.mpr (h name rfl))]
  | marked name =>
    rcases hperform : perform (action (.marked name)) c with ⟨e | u, c'⟩
    · rw [eq_of_refused hperform]
    · rw [eq_of_requireDynamic hperform]
  | refused reason => rfl

/-- Declarations without a new mark keep the marks. -/
theorem dynamic_carryOut (h : ∀ name, .mark name ∈ ds → name ∈ c.dynamic) :
    (perform (carryOut ds) c).2.dynamic = c.dynamic := by
  induction ds generalizing c with
  | nil => rfl
  | cons d ds ih =>
    have hfirst : (perform d.action c).2.dynamic = c.dynamic :=
      dynamic_action fun name hd => h name (hd ▸ List.mem_cons_self)
    rw [carryOut]
    rcases hperform : perform d.action c with ⟨e | u, c₁⟩
    · rw [perform_bind_of_error hperform]
      rwa [hperform] at hfirst
    · rw [hperform] at hfirst
      rw [perform_bind_of_ok hperform, ← hfirst]
      apply ih
      intro name hmem
      rw [hfirst]
      exact h name (List.mem_cons_of_mem d hmem)

/-- No definition of a document marks a name. -/
theorem mark_not_mem_ofDefinition (name other : String) (document : Value) :
    .mark name ∉ ofDefinition other document := by
  unfold ofDefinition
  split <;> simp [ofSchema]

/-- The definitions of a document mark no name. -/
theorem mark_not_mem_ofDefinitions (name : String) (document : Value) :
    .mark name ∉ ofDefinitions document := by
  unfold ofDefinitions
  split
  · split
    · rw [List.mem_flatMap]
      rintro ⟨e, -, hmem⟩
      exact mark_not_mem_ofDefinition name e.1 e.2 hmem
    · simp
  · simp

/-- A schema that is registered marks no name. -/
theorem ofSchema_ne_mark (name other : String) (s : Schema) : ofSchema other s ≠ .mark name := by
  cases s <;> simp [ofSchema]

/-- A class that is registered declares something else than a mark. -/
theorem ofClass_ne_mark (name : String) (t : ClassSource) : ofClass t ≠ .mark name := by
  unfold ofClass
  split
  · exact ofSchema_ne_mark _ _ _
  · simp

/-- The definitions of a class mark no name. -/
theorem mark_not_mem_ofDefinitionsOf (name : String) (t : ClassSource) :
    .mark name ∉ ofDefinitionsOf t := by
  unfold ofDefinitionsOf
  split
  · exact mark_not_mem_ofDefinitions name _
  · exact List.not_mem_nil
  · simp

/-- A class is marked last, behind declarations without a mark. -/
theorem exists_ofClassDocument (t : ClassSource) :
    ∃ ds, ofClassDocument t = ds ++ marks t ∧ ∀ name, .mark name ∉ ds := by
  refine ⟨ofDefinitionsOf t ++ [ofClass t], ?_, fun name => ?_⟩
  · rw [ofClassDocument, List.append_assoc, List.singleton_append]
  · rw [List.mem_append, List.mem_singleton, not_or]
    exact ⟨mark_not_mem_ofDefinitionsOf name t, (ofClass_ne_mark name t).symm⟩

/-- The marks stay as they are where registering a class fails. -/
theorem dynamic_of_registerClass_error {t : ClassSource}
    (h : perform (carryOut (ofClassDocument t)) c = (.error reason, c')) :
    c'.dynamic = c.dynamic := by
  obtain ⟨ds, hds, hnone⟩ := exists_ofClassDocument t
  have hkept : (perform (carryOut ds) c).2.dynamic = c.dynamic :=
    dynamic_carryOut fun name hmem => absurd hmem (hnone name)
  rw [hds, perform_carryOut_append] at h
  rcases hperform : perform (carryOut ds) c with ⟨e | u, c₁⟩
  · rw [perform_bind_of_error hperform] at h
    cases h
    rwa [hperform] at hkept
  · rw [perform_bind_of_ok hperform, marks] at h
    split at h <;> cases h

/-! ## Classes that may be extended -/

/-- A catalog with a class marked, if the class says that it may be extended. -/
def withMarkOf (c : Catalog) (t : ClassSource) : Catalog :=
  if t.dynamic then c.withDynamic t.name else c

/-- The mark of a class leaves enums and classes alone. -/
theorem entries_withMarkOf (c : Catalog) (t : ClassSource) :
    (c.withMarkOf t).enums = c.enums ∧ (c.withMarkOf t).classes = c.classes := by
  unfold withMarkOf
  split
  · exact entries_withDynamic c t.name
  · exact ⟨rfl, rfl⟩

/-- A class that may be extended is marked. -/
theorem mem_dynamic_withMarkOf {t : ClassSource} (h : t.dynamic = true) :
    t.name ∈ (c.withMarkOf t).dynamic := by
  rw [withMarkOf, if_pos h, withDynamic]
  split
  · next hmem => exact List.contains_iff_mem.mp hmem
  · exact List.mem_append_right _ List.mem_cons_self

/-- Declarations behind the mark of a class are carried out with the mark. -/
theorem perform_carryOut_marks (t : ClassSource) (ds : List Declaration) (c : Catalog) :
    perform (carryOut (marks t ++ ds)) c = perform (carryOut ds) (c.withMarkOf t) := by
  unfold marks withMarkOf
  split
  · rfl
  · rfl

/-- The marks of a class are in place behind its mark. -/
theorem mem_dynamic_of_mark_mem {t : ClassSource} {name : String} (h : .mark name ∈ marks t) :
    name ∈ (c.withMarkOf t).dynamic := by
  unfold marks at h
  split at h
  · next hdynamic =>
    cases List.mem_singleton.mp h
    exact mem_dynamic_withMarkOf hdynamic
  · cases h

/-- Without a mark nothing else is done for a class that may not be extended. -/
theorem refused_of_unmarked {t : ClassSource} (hdynamic : t.dynamic = false)
    (hunmarked : t.name ∉ c.dynamic) (ds : List Declaration) :
    perform (carryOut (marks t ++ .marked t.name :: ds)) c =
      (.error (.notDynamic t.name), c) := by
  have hcontains : c.dynamic.contains t.name = false := by simpa using hunmarked
  have hdemand : perform (action (.marked t.name)) c =
      (.error (.notDynamic t.name), c) := by
    rw [action, requireDynamic, perform_bind_of_ok (perform_get c), hcontains]
    rfl
  rw [perform_carryOut_marks, withMarkOf, hdynamic, carryOut]
  exact perform_bind_of_error hdemand _

/-- Behind the mark of a class and the demand for it, declarations that mark nothing else leave just
this mark when they fail. -/
theorem marked_error {t : ClassSource} {ds : List Declaration}
    (hds : ∀ name, .mark name ∈ ds → .mark name ∈ marks t)
    (h : perform (carryOut (marks t ++ .marked t.name :: ds)) c = (.error reason, c')) :
    c'.dynamic = (c.withMarkOf t).dynamic ∧
      (t.dynamic = false → t.name ∉ c.dynamic → c' = c) := by
  constructor
  · have hmarked : ∀ name, .mark name ∈ .marked t.name :: ds →
        name ∈ (c.withMarkOf t).dynamic := by
      intro name hmem
      exact mem_dynamic_of_mark_mem (hds name (by simpa using hmem))
    have hkept := dynamic_carryOut hmarked
    rw [perform_carryOut_marks] at h
    rwa [h] at hkept
  · intro hdynamic hunmarked
    rw [refused_of_unmarked hdynamic hunmarked] at h
    cases h
    rfl

/-- **Opening the entry of a class leaves no mark but that of the class when it fails.** -/
theorem dynamic_of_open_error {o : Archive.Operation} {t : ClassSource}
    (ho : o = .openEnumOf t ∨ o = .openClassOf t)
    (h : perform (carryOut (o.plan c)) c = (.error reason, c')) :
    c'.dynamic = (c.withMarkOf t).dynamic ∧
      (t.dynamic = false → t.name ∉ c.dynamic → c' = c) := by
  rcases ho with rfl | rfl
  · refine marked_error (fun name hmem => ?_) h
    rcases List.mem_append.mp hmem with hmem | hmem
    · split at hmem
      · cases hmem
      · exact absurd (List.mem_singleton.mp hmem).symm (ofClass_ne_mark name t)
    · simp at hmem
  · refine marked_error (fun name hmem => ?_) h
    rcases List.mem_append.mp hmem with hmem | hmem
    · split at hmem
      · cases hmem
      · obtain ⟨ds, hds, hnone⟩ := exists_ofClassDocument t
        rw [hds, List.mem_append] at hmem
        exact hmem.resolve_left (hnone name)
    · simp at hmem

/-- **An extension that fails changes nothing, or its source has failed** behind what the
declaration in its plan left. -/
theorem extend_error {α : Type} {name : String} {d : Declaration} {supply : Supply α}
    (h : perform (carryOut (.marked name :: d :: endOf supply)) c = (.error reason, c')) :
    c' = c ∨ perform d.action c = (.ok (), c') ∧
      ∃ failure, supply.failure = some failure ∧ reason = .foreign failure := by
  rcases carryOut_cons_eq_error h with ⟨-, rfl⟩ | ⟨c₁, hdemand, hrest⟩
  · exact .inl rfl
  obtain rfl := eq_of_requireDynamic hdemand
  rcases carryOut_cons_eq_error hrest with ⟨-, rfl⟩ | ⟨c₂, hdeclared, hlast⟩
  · exact .inl rfl
  unfold endOf at hlast
  split at hlast
  · next failure hfailure =>
    cases hlast
    exact .inr ⟨hdeclared, failure, hfailure, rfl⟩
  · cases hlast

/-- A class that is declared leaves the enums alone. -/
theorem enums_of_classWith {name : String} {properties : List ClassProperty} {u : Unit}
    (h : perform (action (.classWith name properties)) c = (.ok u, c')) : c'.enums = c.enums := by
  rw [action, perform_addProperties] at h
  split at h
  · cases h
  · cases h
    refine (foldl_keeps Catalog.enums (by intros; rfl) _ _).trans ?_
    split <;> rfl

/-- An enum that is declared has not the name of a class, then or later. -/
theorem classes_of_enumWith {name : String} {values : List EnumValue} {u : Unit}
    (h : perform (action (.enumWith name values)) c = (.ok u, c')) :
    c'.classes.has name = false := by
  rw [action, perform_addValues] at h
  split at h
  · cases h
  · next hfree =>
    cases h
    refine (foldl_keeps (·.classes.has name) (by intros; rfl) _ _).trans ?_
    split <;> simpa using hfree

/-- Opening an enum is refused under the name of a class. -/
theorem has_of_enumWith_error {name : String} {values : List EnumValue}
    (h : perform (action (.enumWith name values)) c = (.error reason, c')) :
    c.classes.has name = true := by
  rw [action, perform_addValues] at h
  split at h
  · next hclass => exact hclass
  · cases h

/-- The declaration of a class that is described as no object is an enum under its name, or is
refused. -/
theorem ofClass_cases (t : ClassSource) :
    (∃ values, ofClass t = .enumWith t.name values) ∨
      (∃ refusal, ofClass t = .refused refusal) ∨
      ∃ properties required additional descriptions,
        t.describe = .ok (.object properties required additional descriptions) ∧
          ofClass t = .classWith t.name (propertiesOf properties required descriptions) := by
  unfold ofClass
  rcases hdescribe : t.describe with e | s
  · exact .inr (.inl ⟨_, rfl⟩)
  · cases s with
    | enum values aliases => exact .inl ⟨_, rfl⟩
    | object properties required additional descriptions =>
      exact .inr (.inr ⟨properties, required, additional, descriptions, rfl, rfl⟩)
    | _ => exact .inr (.inl ⟨_, rfl⟩)

/-- **Opening the enum of a class leaves no enum behind when it fails**, and a class only if the
class is described as an object. -/
theorem openEnumOf_error {t : ClassSource}
    (h : perform (carryOut ((Archive.Operation.openEnumOf t).plan c)) c = (.error reason, c')) :
    c'.enums = c.enums ∧
      ((∀ properties required additional descriptions,
        t.describe ≠ .ok (.object properties required additional descriptions)) →
        c'.classes = c.classes) := by
  have hentries := entries_withMarkOf c t
  rw [Archive.Operation.plan, perform_carryOut_marks] at h
  rw [← hentries.1, ← hentries.2]
  generalize c.withMarkOf t = c₁ at h
  rcases carryOut_cons_eq_error h with ⟨-, rfl⟩ | ⟨c₂, hdemand, hrest⟩
  · exact ⟨rfl, fun _ => rfl⟩
  obtain rfl := eq_of_requireDynamic hdemand
  split at hrest
  · rcases carryOut_cons_eq_error hrest with ⟨-, rfl⟩ | ⟨_, _, hnone⟩
    · exact ⟨rfl, fun _ => rfl⟩
    · cases hnone
  rcases carryOut_cons_eq_error hrest with ⟨-, rfl⟩ | ⟨c₃, hregister, hlast⟩
  · exact ⟨rfl, fun _ => rfl⟩
  rcases carryOut_cons_eq_error hlast with ⟨hopen, rfl⟩ | ⟨_, _, hnone⟩
  · -- What is registered stands in the way of the enum, so it is a class.
    have hclass := has_of_enumWith_error hopen
    rcases ofClass_cases t with ⟨values, henum⟩ | ⟨refusal, hnone⟩ |
      ⟨properties, required, additional, descriptions, hdescribe, hobject⟩
    · rw [henum] at hregister
      rw [classes_of_enumWith hregister] at hclass
      cases hclass
    · rw [hnone] at hregister
      cases hregister
    · rw [hobject] at hregister
      exact ⟨enums_of_classWith hregister, fun hno => absurd hdescribe (hno _ _ _ _)⟩
  · cases hnone

end Catalog

namespace Archive

open Catalog Declaration

/-- **A refused operation leaves what it declared before, and no more.** An operation that declares
one thing at most leaves everything as it is, and so does an extension unless its source fails: then
the entry is there, with what was delivered. Any other operation leaves the catalog as the
declarations before the refused one made it: a document leaves the marks alone, and so does a class
that is registered; to open the entry of a class marks the class first, unless it may not be
extended and is not marked, in which case nothing is done; and it leaves no enum behind when an enum
was to be opened, and no class unless the class is described as an object. -/
theorem refused_leaves (o : Operation) {c c' : Catalog} {reason : CatalogError}
    (h : perform o.action c = (.error reason, c')) :
    (o.declaresOnce = true → c' = c) ∧
    (∀ name values, o = .extendEnum name values → c' = c ∨
      perform (addValues name values.items) c = (.ok (), c') ∧
        ∃ failure, values.failure = some failure ∧ reason = .foreign failure) ∧
    (∀ name properties, o = .extendClass name properties → c' = c ∨
      perform (addProperties name properties.items) c = (.ok (), c') ∧
        ∃ failure, properties.failure = some failure ∧ reason = .foreign failure) ∧
    (∃ done refused later, o.plan c = done ++ refused :: later ∧
      perform (carryOut done) c = (.ok (), c') ∧
      perform refused.action c' = (.error reason, c')) ∧
    (∀ document, o = .ingest document → c'.dynamic = c.dynamic) ∧
    (∀ t, o = .registerClass t → c'.dynamic = c.dynamic) ∧
    (∀ t, o = .openEnumOf t ∨ o = .openClassOf t → c'.dynamic = (c.withMarkOf t).dynamic ∧
      (t.dynamic = false → t.name ∉ c.dynamic → c' = c)) ∧
    ∀ t, o = .openEnumOf t → c'.enums = c.enums ∧
      ((∀ properties required additional descriptions,
        t.describe ≠ .ok (.object properties required additional descriptions)) →
        c'.classes = c.classes) := by
  have hplan := carryOut_plan_eq_error h
  obtain ⟨done, refused, later, hsplit, hdone, hrefused⟩ := exists_refused hplan
  refine ⟨?_, ?_, ?_, ⟨done, refused, later, hsplit, hdone, hrefused⟩, ?_, ?_, ?_, ?_⟩
  · intro honce
    have hdemands := demands_of_declaresOnce (c := c) honce
    rw [hsplit, List.dropLast_append_of_ne_nil (List.cons_ne_nil _ _)] at hdemands
    exact eq_of_demands (fun d hd => hdemands d (List.mem_append_left _ hd)) hdone
  · rintro name values rfl
    exact extend_error hplan
  · rintro name properties rfl
    exact extend_error hplan
  · rintro document rfl
    have hkept : (perform (carryOut (ofDefinitions document)) c).2.dynamic = c.dynamic :=
      dynamic_carryOut fun name hmem => absurd hmem (mark_not_mem_ofDefinitions name document)
    rw [Operation.plan] at hplan
    rwa [hplan] at hkept
  · rintro t rfl
    exact dynamic_of_registerClass_error hplan
  · intro t ho
    exact dynamic_of_open_error ho hplan
  · rintro t rfl
    exact openEnumOf_error hplan

/-- Sizes, an enumeration that may be extended. -/
def sizes : ClassSource :=
  { name := "Size", dynamic := true, members := some (.ok ["S"]) }

/-- Orders, a class that may be extended and has a document, in which sizes are defined. -/
def orders : ClassSource where
  name := "Order"
  dynamic := true
  document := .ok (some (.map
    [("$defs", .map [("Size", .map [("enum", .array [.str "S"]), ("type", .str "string")])]),
      ("properties", .map [("size", .map [("$ref", .str "#/$defs/Size")])]),
      ("required", .array [.str "size"]), ("type", .str "object")]))

/-- Where sizes are a class, their enum is refused; only their mark is left. -/
theorem refused_leaves_mark :
    let c := (run [.addProperties "Size" [{ name := "width", schema := .int }]]).current
    ∃ c', perform (Operation.openEnumOf sizes).action c = (.error (.isClass "Size"), c') ∧
      c'.dynamic = ["Size"] ∧ c'.enums = c.enums ∧ c'.classes = c.classes := by
  intro c
  have h : perform (Operation.openEnumOf sizes).action c =
      (.error (.isClass "Size"), c.withDynamic "Size") := rfl
  obtain ⟨-, -, -, -, -, -, hmarks, hentries⟩ := refused_leaves (.openEnumOf sizes) h
  obtain ⟨henums, hclasses⟩ := hentries sizes rfl
  refine ⟨c.withDynamic "Size", h, ?_, henums, hclasses ?_⟩
  · rw [(hmarks sizes (.inl rfl)).1]
    rfl
  · intro properties required additional descriptions hobject
    cases hobject

/-- **A refused operation may leave traces.** A document leaves the definitions before the one whose
name is taken; a class whose name is taken leaves the definitions of its document when it is
registered, and its mark when its enum or its class is to be opened; and an enum keeps what a source
delivered before it failed. -/
theorem refused_with_traces :
    let document : Value := .map [("$defs", .map [("Size", .map [("enum", .array [.str "S"])]),
      ("Order", .map [("properties", .map [("size", .map [("$ref", .str "#/$defs/Size")])]),
        ("type", .str "object")])])]
    let taken := (run [.openEnum "Order", .openClass "Size"]).current
    let named := (run [.openEnum "Order"]).current
    let marked := (run [.markDynamic "Colour"]).current
    let colours : Supply EnumValue := { items := [{ value := "red" }], failure := some "cut short" }
    ((perform (ingest document) named).1.isOk = false ∧
      (perform (ingest document) named).2.enums.names = ["Order", "Size"]) ∧
    ((perform (registerClass orders) named).1.isOk = false ∧
      (perform (registerClass orders) named).2.enums.names = ["Order", "Size"]) ∧
    ((perform (openEnumOf sizes) taken).1.isOk = false ∧ taken.dynamic = [] ∧
      (perform (openEnumOf sizes) taken).2.dynamic = ["Size"]) ∧
    ((perform (openClassOf orders) taken).1.isOk = false ∧ taken.dynamic = [] ∧
      (perform (openClassOf orders) taken).2.dynamic = ["Order"]) ∧
    ((perform (extendEnum "Colour" colours) marked).1.isOk = false ∧ marked.enums.names = [] ∧
      (perform (extendEnum "Colour" colours) marked).2.enums.names = ["Colour"]) := by
  decide +kernel

end Archive

end ShapedReply
