import ShapedReply.Proofs.Catalog.Steps

/-!
# Operations as declarations

The operations on a catalog call each other: a class is registered by taking in its document,
registering its schema and marking its name, and an enum is opened for a class by marking, demanding
the mark, perhaps registering, and opening. Underneath, each of them makes **a list of declarations,
one after the other, until one is refused** (`current_after`).

* `Declaration`: what can be asked for at once. The values of an enum and the properties of a class
  are declared together with the entry itself.
* `Archive.Operation.plan`: the declarations of an operation. The only thing that they depend on is
  whether the catalog has an enum or a class already, since `openEnumOf` and `openClassOf` register
  a class once.
* `Realizes`: an action does to a catalog what a list of declarations does, with one lemma for each
  action.
-/

namespace ShapedReply

/-- What can be asked of a catalog at once. -/
inductive Declaration where
  /-- An enum is to be there, with values. -/
  | enumWith (name : String) (values : List EnumValue)
  /-- A class is to be there, with properties. -/
  | classWith (name : String) (properties : List ClassProperty)
  /-- A name is to be marked. -/
  | mark (name : String)
  /-- A name has to be marked already. -/
  | marked (name : String)
  /-- Nothing can be declared. -/
  | refused (reason : CatalogError)

namespace Declaration

open Catalog

/-- A declaration as an action. -/
def action : Declaration → Action Unit
  | .enumWith name values => addValues name values
  | .classWith name properties => addProperties name properties
  | .mark name => markDynamic name
  | .marked name => requireDynamic name
  | .refused reason => throw reason

/-- The declaration of a schema under a name. -/
def ofSchema (name : String) : Schema → Declaration
  | .enum values aliases => .enumWith name (valuesOf values aliases)
  | .object properties required _ descriptions =>
    .classWith name (propertiesOf properties required descriptions)
  | s => .refused (.notRegistrable s.kindName)

/-- The declaration of a document under a name. -/
def ofDocument (name : String) (document : Value) : Declaration :=
  match Schema.ofDocument document with
  | .ok s => ofSchema name s
  | .error e => .refused (.schema e)

/-- The declarations of a document among others: enums and objects count, all else is passed
over. -/
def ofDefinition (name : String) (document : Value) : List Declaration :=
  match Schema.ofDocument document with
  | .ok (.enum values aliases) => [ofSchema name (.enum values aliases)]
  | .ok (.object properties required additional descriptions) =>
    [ofSchema name (.object properties required additional descriptions)]
  | .ok _ => []
  | .error e => [.refused (.schema e)]

/-- The declarations of the definitions of a document. -/
def ofDefinitions (document : Value) : List Declaration :=
  match document with
  | .map entries => match definitionsOf entries with
    | .map definitions => definitions.flatMap fun e => ofDefinition e.1 e.2
    | _ => [.refused (.schema .notTable)]
  | _ => [.refused (.schema .notTable)]

/-- The declaration of the schema of a class. -/
def ofClass (t : ClassSource) : Declaration :=
  match t.describe with
  | .ok s => ofSchema t.name s
  | .error e => .refused (refusalOf e)

/-- The mark of a class that may be extended. -/
def marks (t : ClassSource) : List Declaration :=
  if t.dynamic then [.mark t.name] else []

/-- The declarations of the definitions of the document of a class. -/
def ofDefinitionsOf (t : ClassSource) : List Declaration :=
  match t.document with
  | .ok (some document) => ofDefinitions document
  | .ok none => []
  | .error reason => [.refused (.foreign reason)]

/-- The declarations of a class, with the definitions of its document. -/
def ofClassDocument (t : ClassSource) : List Declaration :=
  ofDefinitionsOf t ++ ofClass t :: marks t

/-- What comes behind the items of a source: nothing, or its failure. -/
def endOf {α : Type} (supply : Supply α) : List Declaration :=
  match supply.failure with
  | some reason => [.refused (.foreign reason)]
  | none => []

end Declaration

namespace Archive.Operation

open Declaration

/-- The declarations of an operation on the catalog in use. Operations through a handle and clearing
work on the archive and make none. -/
def plan (c : Catalog) : Operation → List Declaration
  | .openEnum name => [.enumWith name []]
  | .openClass name => [.classWith name []]
  | .addValues name values => [.enumWith name values]
  | .addProperties name properties => [.classWith name properties]
  | .register name s => [ofSchema name s]
  | .registerDocument name document =>
    match document with
    | .map _ => [ofDocument name document]
    | _ => [.refused (.schema .notTable)]
  | .registerClass t => ofClassDocument t
  | .ingest document => ofDefinitions document
  | .markDynamic name => [.mark name]
  | .markClass t => marks t
  | .openEnumOf t => marks t ++ .marked t.name ::
      ((if c.enums.has t.name then [] else [ofClass t]) ++ [.enumWith t.name []])
  | .openClassOf t => marks t ++ .marked t.name ::
      ((if c.classes.has t.name then [] else ofClassDocument t) ++
        [.classWith t.name []])
  | .extendEnum name values => .marked name :: .enumWith name values.items :: endOf values
  | .extendClass name properties =>
    .marked name :: .classWith name properties.items :: endOf properties
  | .addValue .. | .addProperty .. | .clear => []

end Archive.Operation

namespace Catalog

open Declaration

variable {α β : Type}

/-- Carries out declarations until one is refused. -/
def carryOut : List Declaration → Action Unit
  | [] => pure ()
  | d :: rest => do
    d.action
    carryOut rest

/-- An action does to a catalog what declarations do, and fails as they do. -/
def Realizes (action : Action α) (ds : List Declaration) (c : Catalog) : Prop :=
  perform (carryOut ds) c = ((perform action c).1.map fun _ => (), (perform action c).2)

variable {c : Catalog}

/-- To do nothing realizes no declarations. -/
theorem realizes_pure (a : α) (c : Catalog) : Realizes (pure a : Action α) [] c := rfl

/-- A declaration does what its action does. -/
theorem realizes_action (d : Declaration) (c : Catalog) : Realizes d.action [d] c := by
  rw [Realizes, carryOut]
  rcases hperform : perform d.action c with ⟨e | u, c'⟩
  · rw [perform_bind_of_error hperform]
    rfl
  · rw [perform_bind_of_ok hperform]
    rfl

/-- Declarations are carried out in their order. -/
theorem perform_carryOut_append (ds es : List Declaration) (c : Catalog) :
    perform (carryOut (ds ++ es)) c = perform (carryOut ds >>= fun _ => carryOut es) c := by
  induction ds generalizing c with
  | nil => rfl
  | cons d ds ih =>
    rw [List.cons_append, carryOut, carryOut]
    rcases hperform : perform d.action c with ⟨e | u, c'⟩
    · rw [perform_bind_of_error hperform, perform_bind_of_error (perform_bind_of_error hperform _)]
    · rw [perform_bind_of_ok hperform, ih]
      rcases hrest : perform (carryOut ds) c' with ⟨e | v, c''⟩
      · rw [perform_bind_of_error hrest,
          perform_bind_of_error ((perform_bind_of_ok hperform _).trans hrest)]
      · rw [perform_bind_of_ok hrest,
          perform_bind_of_ok ((perform_bind_of_ok hperform _).trans hrest)]

/-- One action after another does what the declarations of both do. -/
theorem Realizes.bind {action : Action α} {next : α → Action β} {ds es : List Declaration}
    (h : Realizes action ds c)
    (hnext : ∀ a c', perform action c = (.ok a, c') → Realizes (next a) es c') :
    Realizes (action >>= next) (ds ++ es) c := by
  unfold Realizes at h hnext ⊢
  rw [perform_carryOut_append]
  rcases hperform : perform action c with ⟨e | a, c'⟩
  · rw [hperform] at h
    rw [perform_bind_of_error h, perform_bind_of_error hperform]
    rfl
  · rw [hperform] at h
    rw [perform_bind_of_ok h, perform_bind_of_ok hperform]
    exact hnext a c' hperform

/-- What follows an action that only looks is done in the same catalog. -/
theorem Realizes.of_perform {action : Action α} {next : α → Action β} {ds : List Declaration}
    {a : α} (haction : perform action c = (.ok a, c)) (h : Realizes (next a) ds c) :
    Realizes (action >>= next) ds c := by
  unfold Realizes
  rw [perform_bind_of_ok haction]
  exact h

/-- An action that is refused at once is followed by nothing. -/
theorem Realizes.of_error {action : Action α} {next : α → Action β} {reason : CatalogError}
    (haction : perform action c = (.error reason, c)) (ds : List Declaration) :
    Realizes (action >>= next) (.refused reason :: ds) c := by
  unfold Realizes
  rw [perform_bind_of_error haction]
  rfl

/-- Declarations that are followed by an answer. -/
theorem Realizes.bind_pure {action : Action α} {ds : List Declaration} (h : Realizes action ds c)
    (f : α → β) : Realizes (action >>= fun a => pure (f a)) ds c := by
  have hboth : Realizes (action >>= fun a => pure (f a)) (ds ++ []) c :=
    h.bind fun a c' _ => realizes_pure (f a) c'
  rwa [List.append_nil] at hboth

/-! ## The actions -/

/-- To open an enum declares it without values. -/
theorem realizes_openEnum (name : String) (c : Catalog) :
    Realizes (openEnum name) [.enumWith name []] c := by
  have hsame : perform (addValues name []) c = perform (openEnum name) c := by
    rw [perform_addValues, perform_openEnum]
    rfl
  unfold Realizes
  rw [← hsame]
  exact realizes_action (.enumWith name []) c

/-- To open a class declares it without properties. -/
theorem realizes_openClass (name : String) (c : Catalog) :
    Realizes (openClass name) [.classWith name []] c := by
  have hsame : perform (addProperties name []) c = perform (openClass name) c := by
    rw [perform_addProperties, perform_openClass]
    rfl
  unfold Realizes
  rw [← hsame]
  exact realizes_action (.classWith name []) c

/-- To register a schema makes the one declaration that it stands for. -/
theorem realizes_register (name : String) (s : Schema) (c : Catalog) :
    Realizes (register name s) [ofSchema name s] c := by
  have hsame : register name s = (ofSchema name s).action := by cases s <;> rfl
  rw [hsame]
  exact realizes_action _ c

/-- Reading a document leaves the catalog alone. -/
theorem perform_readDocument (document : Value) (c : Catalog) :
    perform (readDocument document) c = ((Schema.ofDocument document).mapError .schema, c) := by
  unfold readDocument
  cases Schema.ofDocument document <;> rfl

/-- To register a document makes the declaration of the schema that is read from it. -/
theorem realizes_registerDocument (name : String) (document : Value) (c : Catalog) :
    Realizes (registerDocument name document)
      ((Archive.Operation.registerDocument name document).plan c) c := by
  unfold registerDocument Archive.Operation.plan
  cases document with
  | map entries =>
    have hread := perform_readDocument (.map entries) c
    simp only [ofDocument]
    rcases hschema : Schema.ofDocument (.map entries) with e | s
    · rw [hschema] at hread
      exact .of_error hread []
    · rw [hschema] at hread
      exact .of_perform hread (realizes_register name s c)
  | _ => rfl

/-- Taking in definitions declares them one after the other. -/
theorem realizes_ingestAll (documents : Table Value) (c : Catalog) :
    Realizes (ingestAll documents) (documents.flatMap fun e => ofDefinition e.1 e.2) c := by
  induction documents generalizing c with
  | nil => exact realizes_pure [] c
  | cons e documents ih =>
    obtain ⟨name, document⟩ := e
    have hread := perform_readDocument document c
    rw [List.flatMap_cons, ingestAll, ofDefinition]
    rcases hschema : Schema.ofDocument document with e | s
    · rw [hschema] at hread
      exact .of_error hread _
    · rw [hschema] at hread
      refine .of_perform hread ?_
      cases s with
      | enum values aliases =>
        exact (realizes_register name _ c).bind fun _ c' _ => (ih c').bind_pure _
      | object properties required additional descriptions =>
        exact (realizes_register name _ c).bind fun _ c' _ => (ih c').bind_pure _
      | _ => exact (ih c).bind_pure _

/-- To take in a document makes the declarations of its definitions, one by one. -/
theorem realizes_ingest (document : Value) (c : Catalog) :
    Realizes (ingest document) (ofDefinitions document) c := by
  cases document with
  | map entries =>
    rw [ingest, ofDefinitions]
    cases definitionsOf entries with
    | map definitions => exact realizes_ingestAll definitions c
    | _ => rfl
  | _ => rfl

/-- A class that may be extended is marked, and any other is not. -/
theorem realizes_markClass (t : ClassSource) (c : Catalog) :
    Realizes (markClass t) (marks t) c := by
  unfold markClass marks
  split
  · exact realizes_action (.mark t.name) c
  · rfl

/-- The schema of a class is declared before anything else is done, or nothing is. -/
theorem realizes_describe {t : ClassSource} {next : Schema → Action α} {ds : List Declaration}
    (h : ∀ s, t.describe = .ok s → Realizes (next s) (ofSchema t.name s :: ds) c) :
    Realizes (describe t >>= next) (ofClass t :: ds) c := by
  have hthrow (reason : CatalogError) :
      perform (throw reason : Action Schema) c = (.error reason, c) := rfl
  unfold describe ofClass
  rcases hdescribe : t.describe with e | s
  · exact .of_error (hthrow (refusalOf e)) ds
  · exact .of_perform (perform_pure s c) (h s hdescribe)

/-- To take in the definitions of a class makes their declarations, if its document is there. -/
theorem realizes_ingestOf (t : ClassSource) (c : Catalog) :
    Realizes (ingestOf t) (ofDefinitionsOf t) c := by
  unfold ingestOf ofDefinitionsOf
  rcases t.document with reason | _ | document
  · rfl
  · exact realizes_pure () c
  · exact (realizes_ingest document c).bind_pure _

/-- To register a class makes the declarations of its document, its own and its mark. -/
theorem realizes_registerClass (t : ClassSource) (c : Catalog) :
    Realizes (registerClass t) (ofClassDocument t) c := by
  unfold registerClass ofClassDocument
  refine (realizes_ingestOf t c).bind fun _ c₁ _ => ?_
  refine realizes_describe fun s _ => ?_
  exact (realizes_register t.name s c₁).bind fun _ c' _ => (realizes_markClass t c').bind_pure _

/-- To ask for a mark demands it and declares nothing. -/
theorem realizes_requireDynamic (name : String) (c : Catalog) :
    Realizes (requireDynamic name) [.marked name] c :=
  realizes_action (.marked name) c

/-- Marks leave the enums and the classes alone. -/
theorem entries_withDynamic (c : Catalog) (name : String) :
    (c.withDynamic name).enums = c.enums ∧ (c.withDynamic name).classes = c.classes := by
  unfold withDynamic
  split <;> exact ⟨rfl, rfl⟩

/-- A mark leaves enums and classes alone. -/
theorem entries_markClass {t : ClassSource} {c' : Catalog} {u : Unit}
    (h : perform (markClass t) c = (.ok u, c')) : c'.enums = c.enums ∧ c'.classes = c.classes := by
  unfold markClass at h
  split at h
  · cases h
    exact entries_withDynamic c t.name
  · cases h
    exact ⟨rfl, rfl⟩

/-- A mark that is there changes nothing. -/
theorem eq_of_requireDynamic {name : String} {c' : Catalog} {u : Unit}
    (h : perform (requireDynamic name) c = (.ok u, c')) : c' = c := by
  unfold requireDynamic at h
  rw [perform_bind_of_ok (perform_get c)] at h
  split at h
  · cases h
  · cases h
    rfl

/-- To open the enum of a class makes the declarations of its plan. -/
theorem realizes_openEnumOf (t : ClassSource) (c : Catalog) :
    Realizes (openEnumOf t) ((Archive.Operation.openEnumOf t).plan c) c := by
  unfold openEnumOf Archive.Operation.plan
  refine (realizes_markClass t c).bind fun _ c₁ hmark => ?_
  refine (realizes_requireDynamic t.name c₁).bind fun _ c₂ hrequire => ?_
  obtain rfl := eq_of_requireDynamic hrequire
  refine .of_perform (perform_get c₂) ?_
  rw [← (entries_markClass hmark).1]
  cases c₂.enums.has t.name with
  | true => exact realizes_openEnum t.name c₂
  | false =>
    exact realizes_describe fun s _ =>
      (realizes_register t.name s c₂).bind fun _ c' _ => realizes_openEnum t.name c'

/-- To open the class of a class makes the declarations of its plan. -/
theorem realizes_openClassOf (t : ClassSource) (c : Catalog) :
    Realizes (openClassOf t) ((Archive.Operation.openClassOf t).plan c) c := by
  unfold openClassOf Archive.Operation.plan
  refine (realizes_markClass t c).bind fun _ c₁ hmark => ?_
  refine (realizes_requireDynamic t.name c₁).bind fun _ c₂ hrequire => ?_
  obtain rfl := eq_of_requireDynamic hrequire
  refine .of_perform (perform_get c₂) ?_
  rw [← (entries_markClass hmark).2]
  cases c₂.classes.has t.name with
  | true => exact realizes_openClass t.name c₂
  | false =>
    exact (realizes_registerClass t c₂).bind fun _ c' _ => realizes_openClass t.name c'

/-- At its end a source that fails refuses, and any other declares nothing. -/
theorem realizes_finish (supply : Supply α) (c : Catalog) :
    Realizes (finish supply) (endOf supply) c := by
  unfold finish endOf
  cases supply.failure <;> rfl

/-- To extend an enum makes the declarations of its plan. -/
theorem realizes_extendEnum (name : String) (values : Supply EnumValue) (c : Catalog) :
    Realizes (extendEnum name values) ((Archive.Operation.extendEnum name values).plan c) c :=
  (realizes_requireDynamic name c).bind fun _ c₁ _ =>
    (realizes_action (.enumWith name values.items) c₁).bind fun _ c₂ _ => realizes_finish values c₂

/-- To extend a class makes the declarations of its plan. -/
theorem realizes_extendClass (name : String) (properties : Supply ClassProperty) (c : Catalog) :
    Realizes (extendClass name properties)
      ((Archive.Operation.extendClass name properties).plan c) c :=
  (realizes_requireDynamic name c).bind fun _ c₁ _ =>
    (realizes_action (.classWith name properties.items) c₁).bind fun _ c₂ _ =>
      realizes_finish properties c₂

end Catalog

namespace Archive

open Catalog

/-- **An operation on the catalog in use carries out its declarations until one is refused.** -/
theorem current_after (a : Archive) {o : Operation} (haddValue : ∀ h v, o ≠ .addValue h v)
    (haddProperty : ∀ h p, o ≠ .addProperty h p) (hclear : o ≠ .clear) :
    (a.after o).current = (perform (carryOut (o.plan a.current)) a.current).2 := by
  have hsame {α : Type} {action : Action α} (h : Realizes action (o.plan a.current) a.current) :
      (a.act action).current = (perform (carryOut (o.plan a.current)) a.current).2 := by
    rw [h]
    rfl
  cases o with
  | openEnum name => exact hsame (realizes_openEnum name _)
  | openClass name => exact hsame (realizes_openClass name _)
  | addValues name values => exact hsame (realizes_action (.enumWith name values) _)
  | addProperties name properties => exact hsame (realizes_action (.classWith name properties) _)
  | register name s => exact hsame (realizes_register name s _)
  | registerDocument name document => exact hsame (realizes_registerDocument name document _)
  | registerClass t => exact hsame (realizes_registerClass t _)
  | ingest document => exact hsame (realizes_ingest document _)
  | markDynamic name => exact hsame (realizes_action (.mark name) _)
  | markClass t => exact hsame (realizes_markClass t _)
  | openEnumOf t => exact hsame (realizes_openEnumOf t _)
  | openClassOf t => exact hsame (realizes_openClassOf t _)
  | extendEnum name values => exact hsame (realizes_extendEnum name values _)
  | extendClass name properties => exact hsame (realizes_extendClass name properties _)
  | addValue h v => exact absurd rfl (haddValue h v)
  | addProperty h p => exact absurd rfl (haddProperty h p)
  | clear => exact absurd rfl hclear

end Archive

end ShapedReply
