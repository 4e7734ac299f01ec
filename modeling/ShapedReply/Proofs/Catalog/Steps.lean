import Mathlib.Logic.Relation
import ShapedReply.Catalog.Archive
import ShapedReply.Proofs.Table

/-!
# How catalogs change

A catalog changes in five small ways only: an enum or a class is opened under a free name, a value
or a property is appended, a name is marked. Every action, whether it answers or fails, is a run of
such steps (`BySteps`), and so is every operation on an archive but clearing, which starts with an
empty catalog.

So what is true of the empty catalog and kept by one step is **true of every catalog that operations
lead to** (`IsReached.of_step`).
-/

namespace ShapedReply

namespace Catalog

variable {α β : Type}

/-! ## Actions at work -/

/-- An action at work: its answer or its failure, and the catalog that it leaves. -/
def perform (action : Action α) (c : Catalog) : Except CatalogError α × Catalog :=
  action.run.run c

/-- To give a result leaves the catalog alone. -/
theorem perform_pure (a : α) (c : Catalog) : perform (pure a) c = (.ok a, c) := rfl

/-- To look at the catalog leaves it alone. -/
theorem perform_get (c : Catalog) : perform (get : Action Catalog) c = (.ok c, c) := rfl

/-- An action that answers is followed by the next one, in the catalog that it leaves. -/
theorem perform_bind_of_ok {action : Action α} {c c' : Catalog} {a : α}
    (h : perform action c = (.ok a, c')) (next : α → Action β) :
    perform (action >>= next) c = perform (next a) c' := by
  unfold perform at h ⊢
  simp only [ExceptT.run_bind, StateT.run_bind, h]
  rfl

/-- An action that fails is followed by nothing. -/
theorem perform_bind_of_error {action : Action α} {c c' : Catalog} {e : CatalogError}
    (h : perform action c = (.error e, c')) (next : α → Action β) :
    perform (action >>= next) c = (.error e, c') := by
  unfold perform at h ⊢
  simp only [ExceptT.run_bind, StateT.run_bind, h]
  rfl

/-- Opening an enum fails under the name of a class, and otherwise makes sure that it is there. -/
theorem perform_openEnum (name : String) (c : Catalog) :
    perform (openEnum name) c =
      if c.classes.has name then (.error (.isClass name), c)
      else (.ok (),
        if c.enums.has name then c else { c with enums := c.enums.put name { name } }) := by
  rw [openEnum, perform_bind_of_ok (perform_get c)]
  cases c.classes.has name <;> cases c.enums.has name <;> rfl

/-- Opening a class fails under the name of an enum, and otherwise makes sure that it is there. -/
theorem perform_openClass (name : String) (c : Catalog) :
    perform (openClass name) c =
      if c.enums.has name then (.error (.isEnum name), c)
      else (.ok (), if c.classes.has name then c
        else { c with classes := c.classes.put name { name } }) := by
  rw [openClass, perform_bind_of_ok (perform_get c)]
  cases c.enums.has name <;> cases c.classes.has name <;> rfl

/-- Values are added once the enum is there. -/
theorem perform_addValues (name : String) (values : List EnumValue) (c : Catalog) :
    perform (addValues name values) c =
      if c.classes.has name then (.error (.isClass name), c)
      else (.ok (), values.foldl (fun c v => c.withValue name v)
        (if c.enums.has name then c else { c with enums := c.enums.put name { name } })) := by
  have hopen := perform_openEnum name c
  by_cases hclass : c.classes.has name = true
  · rw [if_pos hclass] at hopen ⊢
    exact perform_bind_of_error hopen _
  · rw [if_neg hclass] at hopen ⊢
    exact perform_bind_of_ok hopen _

/-- Properties are added once the class is there. -/
theorem perform_addProperties (name : String) (properties : List ClassProperty) (c : Catalog) :
    perform (addProperties name properties) c =
      if c.enums.has name then (.error (.isEnum name), c)
      else (.ok (), properties.foldl (fun c p => c.withProperty name p)
        (if c.classes.has name then c
          else { c with classes := c.classes.put name { name } })) := by
  have hopen := perform_openClass name c
  by_cases henum : c.enums.has name = true
  · rw [if_pos henum] at hopen ⊢
    exact perform_bind_of_error hopen _
  · rw [if_neg henum] at hopen ⊢
    exact perform_bind_of_ok hopen _

/-! ## Steps -/

/-- What can happen to a catalog at once. -/
inductive Step : Catalog → Catalog → Prop
  | enumOpened (c : Catalog) (name : String) (hclass : c.classes.has name = false)
      (henum : c.enums.has name = false) : Step c { c with enums := c.enums.put name { name } }
  | classOpened (c : Catalog) (name : String) (henum : c.enums.has name = false)
      (hclass : c.classes.has name = false) :
      Step c { c with classes := c.classes.put name { name } }
  | valueAdded (c : Catalog) (name : String) (v : EnumValue) : Step c (c.withValue name v)
  | propertyAdded (c : Catalog) (name : String) (p : ClassProperty) : Step c (c.withProperty name p)
  | marked (c : Catalog) (name : String) : Step c (c.withDynamic name)

/-- A run of steps. -/
abbrev Steps : Catalog → Catalog → Prop := Relation.ReflTransGen Step

/-- An action that changes a catalog by steps only, whether it answers or fails. -/
def BySteps (action : Action α) : Prop :=
  ∀ c, Steps c (perform action c).2

/-- To give a result takes no step. -/
theorem bySteps_pure (a : α) : BySteps (pure a : Action α) := fun _ => .refl

/-- To refuse takes no step. -/
theorem bySteps_throw (e : CatalogError) : BySteps (throw e : Action α) := fun _ => .refl

/-- To look at the catalog takes no step. -/
theorem bySteps_get : BySteps (get : Action Catalog) := fun _ => .refl

/-- A change that steps make is made by steps. -/
theorem bySteps_modify {f : Catalog → Catalog} (h : ∀ c, Steps c (f c)) :
    BySteps (modify f : Action Unit) := h

/-- Of two actions by steps, one after the other goes by steps. -/
theorem bySteps_bind {action : Action α} {next : α → Action β} (h : BySteps action)
    (hnext : ∀ a, BySteps (next a)) : BySteps (action >>= next) := by
  intro c
  have hfirst := h c
  rcases hperform : perform action c with ⟨_ | a, c'⟩
  · rw [perform_bind_of_error hperform]
    rwa [hperform] at hfirst
  · rw [perform_bind_of_ok hperform]
    rw [hperform] at hfirst
    exact hfirst.trans (hnext a c')

/-- Either of two actions by steps goes by steps. -/
theorem bySteps_ite {p : Prop} [Decidable p] {first second : Action α} (hfirst : BySteps first)
    (hsecond : BySteps second) : BySteps (if p then first else second) := by
  split
  · exact hfirst
  · exact hsecond

/-- Steps that are taken for one thing after another make a run. -/
theorem steps_foldl {f : Catalog → α → Catalog} (h : ∀ c a, Step c (f c a)) (l : List α)
    (c : Catalog) : Steps c (l.foldl f c) := by
  induction l generalizing c with
  | nil => exact .refl
  | cons a l ih => exact .head (h c a) (ih (f c a))

/-- What is kept for each of several things is kept for all of them. -/
theorem foldl_keeps {γ : Type} {f : Catalog → α → Catalog} (kept : Catalog → γ)
    (h : ∀ c a, kept (f c a) = kept c) (l : List α) (c : Catalog) :
    kept (l.foldl f c) = kept c := by
  induction l generalizing c with
  | nil => rfl
  | cons a l ih => exact (ih (f c a)).trans (h c a)

/-! ## The actions -/

/-- To open an enum takes one step at most. -/
theorem bySteps_openEnum (name : String) : BySteps (openEnum name) := by
  intro c
  rw [perform_openEnum]
  rcases hclass : c.classes.has name with _ | _
  · rcases henum : c.enums.has name with _ | _
    · exact .single (.enumOpened c name hclass henum)
    · exact .refl
  · exact .refl

/-- To open a class takes one step at most. -/
theorem bySteps_openClass (name : String) : BySteps (openClass name) := by
  intro c
  rw [perform_openClass]
  rcases henum : c.enums.has name with _ | _
  · rcases hclass : c.classes.has name with _ | _
    · exact .single (.classOpened c name henum hclass)
    · exact .refl
  · exact .refl

/-- To add values takes a step to their enum and one for each value. -/
theorem bySteps_addValues (name : String) (values : List EnumValue) :
    BySteps (addValues name values) :=
  bySteps_bind (bySteps_openEnum name) fun _ =>
    bySteps_modify fun c => steps_foldl (fun c v => .valueAdded c name v) values c

/-- To add properties takes a step to their class and one for each property. -/
theorem bySteps_addProperties (name : String) (properties : List ClassProperty) :
    BySteps (addProperties name properties) :=
  bySteps_bind (bySteps_openClass name) fun _ =>
    bySteps_modify fun c => steps_foldl (fun c p => .propertyAdded c name p) properties c

/-- To register a schema goes by steps. -/
theorem bySteps_register (name : String) (s : Schema) : BySteps (register name s) := by
  cases s with
  | enum values aliases => exact bySteps_addValues name _
  | object properties required additional descriptions => exact bySteps_addProperties name _
  | _ => exact bySteps_throw _

/-- To read a document takes no step. -/
theorem bySteps_readDocument (document : Value) : BySteps (readDocument document) := by
  unfold readDocument
  split
  · exact bySteps_pure _
  · exact bySteps_throw _

/-- To register a document goes by steps. -/
theorem bySteps_registerDocument (name : String) (document : Value) :
    BySteps (registerDocument name document) := by
  unfold registerDocument
  split
  · exact bySteps_bind (bySteps_readDocument _) fun s => bySteps_register name s
  · exact bySteps_throw _

/-- To take in definitions goes by steps, also if one of them is refused. -/
theorem bySteps_ingestAll (documents : Table Value) : BySteps (ingestAll documents) := by
  induction documents with
  | nil => exact bySteps_pure _
  | cons e documents ih =>
    obtain ⟨name, document⟩ := e
    unfold ingestAll
    apply bySteps_bind (bySteps_readDocument document)
    intro s
    apply bySteps_ite
    · apply bySteps_bind (bySteps_register name s)
      intro _
      exact bySteps_bind ih fun _ => bySteps_pure _
    · exact bySteps_bind ih fun _ => bySteps_pure _

/-- To take in a document goes by steps. -/
theorem bySteps_ingest (document : Value) : BySteps (ingest document) := by
  unfold ingest
  split
  · split
    · exact bySteps_ingestAll _
    · exact bySteps_throw _
  · exact bySteps_throw _

/-- To ask a class for its schema takes no step. -/
theorem bySteps_describe (t : ClassSource) : BySteps (describe t) := by
  unfold describe
  split
  · exact bySteps_pure _
  · exact bySteps_throw _

/-- To mark a name takes one step. -/
theorem bySteps_markDynamic (name : String) : BySteps (markDynamic name) :=
  bySteps_modify fun c => .single (.marked c name)

/-- To mark a class takes one step at most. -/
theorem bySteps_markClass (t : ClassSource) : BySteps (markClass t) :=
  bySteps_ite (bySteps_markDynamic t.name) (bySteps_pure _)

/-- To take in the definitions of a class goes by steps, whatever its document is. -/
theorem bySteps_ingestOf (t : ClassSource) : BySteps (ingestOf t) := by
  unfold ingestOf
  split
  · exact bySteps_bind (bySteps_ingest _) fun _ => bySteps_pure _
  · exact bySteps_pure _
  · exact bySteps_throw _

/-- To register a class goes by steps, whatever its document is. -/
theorem bySteps_registerClass (t : ClassSource) : BySteps (registerClass t) := by
  unfold registerClass
  apply bySteps_bind (bySteps_ingestOf t)
  intro _
  apply bySteps_bind (bySteps_describe t)
  intro s
  apply bySteps_bind (bySteps_register t.name s)
  intro _
  exact bySteps_bind (bySteps_markClass t) fun _ => bySteps_pure _

/-- To ask for a mark takes no step. -/
theorem bySteps_requireDynamic (name : String) : BySteps (requireDynamic name) :=
  bySteps_bind bySteps_get fun _ => bySteps_ite (bySteps_throw _) (bySteps_pure _)

/-- To open the enum of a class goes by steps. -/
theorem bySteps_openEnumOf (t : ClassSource) : BySteps (openEnumOf t) := by
  unfold openEnumOf
  apply bySteps_bind (bySteps_markClass t)
  intro _
  apply bySteps_bind (bySteps_requireDynamic t.name)
  intro _
  apply bySteps_bind bySteps_get
  intro c
  apply bySteps_ite
  · apply bySteps_bind (bySteps_describe t)
    intro s
    exact bySteps_bind (bySteps_register t.name s) fun _ => bySteps_openEnum t.name
  · exact bySteps_openEnum t.name

/-- To open the class of a class goes by steps. -/
theorem bySteps_openClassOf (t : ClassSource) : BySteps (openClassOf t) := by
  unfold openClassOf
  apply bySteps_bind (bySteps_markClass t)
  intro _
  apply bySteps_bind (bySteps_requireDynamic t.name)
  intro _
  apply bySteps_bind bySteps_get
  intro c
  apply bySteps_ite
  · exact bySteps_bind (bySteps_registerClass t) fun _ => bySteps_openClass t.name
  · exact bySteps_openClass t.name

/-- The end of a source takes no step, whether it fails or not. -/
theorem bySteps_finish (supply : Supply α) : BySteps (finish supply) := by
  unfold finish
  split
  · exact bySteps_throw _
  · exact bySteps_pure _

/-- To extend an enum goes by steps, also if its source fails. -/
theorem bySteps_extendEnum (name : String) (values : Supply EnumValue) :
    BySteps (extendEnum name values) :=
  bySteps_bind (bySteps_requireDynamic name) fun _ =>
    bySteps_bind (bySteps_addValues name values.items) fun _ => bySteps_finish values

/-- To extend a class goes by steps, also if its source fails. -/
theorem bySteps_extendClass (name : String) (properties : Supply ClassProperty) :
    BySteps (extendClass name properties) :=
  bySteps_bind (bySteps_requireDynamic name) fun _ =>
    bySteps_bind (bySteps_addProperties name properties.items) fun _ => bySteps_finish properties

end Catalog

/-! ## Operations -/

namespace Archive

/-- An archive after an action on the catalog in use. -/
def act {α : Type} (a : Archive) (action : Catalog.Action α) : Archive :=
  { a with current := (Catalog.perform action a.current).2 }

/-- Everything that can be asked of an archive and may change it. The documents of classes, and the
values and properties that entries are extended by, come from outside: what they are, and where they
fail, is a part of what is asked. -/
inductive Operation where
  | openEnum (name : String)
  | openClass (name : String)
  | addValues (name : String) (values : List EnumValue)
  | addProperties (name : String) (properties : List ClassProperty)
  | addValue (h : Handle) (v : EnumValue)
  | addProperty (h : Handle) (p : ClassProperty)
  | register (name : String) (s : Schema)
  | registerDocument (name : String) (document : Value)
  | registerClass (t : ClassSource)
  | ingest (document : Value)
  | markDynamic (name : String)
  | markClass (t : ClassSource)
  | openEnumOf (t : ClassSource)
  | openClassOf (t : ClassSource)
  | extendEnum (name : String) (values : Supply EnumValue)
  | extendClass (name : String) (properties : Supply ClassProperty)
  | clear

/-- An archive after an operation; one that fails counts with what it did before. -/
def after (a : Archive) : Operation → Archive
  | .openEnum name => a.act (Catalog.openEnum name)
  | .openClass name => a.act (Catalog.openClass name)
  | .addValues name values => a.act (Catalog.addValues name values)
  | .addProperties name properties => a.act (Catalog.addProperties name properties)
  | .addValue h v => a.addValue h v
  | .addProperty h p => a.addProperty h p
  | .register name s => a.act (Catalog.register name s)
  | .registerDocument name document => a.act (Catalog.registerDocument name document)
  | .registerClass t => a.act (Catalog.registerClass t)
  | .ingest document => a.act (Catalog.ingest document)
  | .markDynamic name => a.act (Catalog.markDynamic name)
  | .markClass t => a.act (Catalog.markClass t)
  | .openEnumOf t => a.act (Catalog.openEnumOf t)
  | .openClassOf t => a.act (Catalog.openClassOf t)
  | .extendEnum name values => a.act (Catalog.extendEnum name values)
  | .extendClass name properties => a.act (Catalog.extendClass name properties)
  | .clear => a.clear

/-- The archive that operations lead to, from an empty one. -/
def run (operations : List Operation) : Archive :=
  operations.foldl after {}

/-- A change to one edition is a step of the catalog in use, or leaves that one alone. -/
theorem steps_modifyAt {f : Catalog → Catalog} (h : ∀ c, Catalog.Step c (f c)) (a : Archive)
    (edition : Nat) : Catalog.Steps a.current (a.modifyAt edition f).current := by
  unfold modifyAt
  split
  · exact .refl
  · exact .single (h a.current)

/-- An operation other than clearing runs some steps on the catalog in use. -/
theorem steps_after (a : Archive) {o : Operation} (hclear : o ≠ .clear) :
    Catalog.Steps a.current (a.after o).current := by
  cases o with
  | openEnum name => exact Catalog.bySteps_openEnum name _
  | openClass name => exact Catalog.bySteps_openClass name _
  | addValues name values => exact Catalog.bySteps_addValues name values _
  | addProperties name properties => exact Catalog.bySteps_addProperties name properties _
  | addValue h v => exact steps_modifyAt (fun c => .valueAdded c h.name v) a h.edition
  | addProperty h p => exact steps_modifyAt (fun c => .propertyAdded c h.name p) a h.edition
  | register name s => exact Catalog.bySteps_register name s _
  | registerDocument name document => exact Catalog.bySteps_registerDocument name document _
  | registerClass t => exact Catalog.bySteps_registerClass t _
  | ingest document => exact Catalog.bySteps_ingest document _
  | markDynamic name => exact Catalog.bySteps_markDynamic name _
  | markClass t => exact Catalog.bySteps_markClass t _
  | openEnumOf t => exact Catalog.bySteps_openEnumOf t _
  | openClassOf t => exact Catalog.bySteps_openClassOf t _
  | extendEnum name values => exact Catalog.bySteps_extendEnum name values _
  | extendClass name properties => exact Catalog.bySteps_extendClass name properties _
  | clear => exact absurd rfl hclear

end Archive

/-! ## Reached catalogs -/

namespace Catalog

/-- A catalog that some sequence of operations leads to. -/
def IsReached (c : Catalog) : Prop :=
  ∃ operations : List Archive.Operation, (operations.foldl Archive.after {}).current = c

/-- **What is true of the empty catalog and kept by steps is true of every reached catalog.** -/
theorem IsReached.of_step {p : Catalog → Prop} (hempty : p {})
    (hstep : ∀ c c', Step c c' → p c → p c') {c : Catalog} (h : c.IsReached) : p c := by
  have hsteps : ∀ c c', Steps c c' → p c → p c' := by
    intro c c' hrun hc
    induction hrun with
    | refl => exact hc
    | tail _ hlast ih => exact hstep _ _ hlast ih
  have hrun : ∀ (operations : List Archive.Operation) (a : Archive), p a.current →
      p (operations.foldl Archive.after a).current := by
    intro operations
    induction operations with
    | nil => exact fun _ h => h
    | cons o operations ih =>
      intro a ha
      apply ih
      by_cases hclear : o = .clear
      · rw [hclear]
        exact hempty
      · exact hsteps _ _ (a.steps_after hclear) ha
  obtain ⟨operations, rfl⟩ := h
  exact hrun operations {} hempty

end Catalog

end ShapedReply
