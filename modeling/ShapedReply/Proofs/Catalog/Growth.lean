import ShapedReply.Proofs.Catalog.Consistency
import ShapedReply.Proofs.Catalog.Declarations

/-!
# Catalogs only grow

Short of clearing, nothing that is asked of a catalog takes anything away or changes what is there,
whether it answers or is refused halfway: **enums and classes stay, their values and properties are
appended to, and so are the marks**. It follows that **the values of an enum are the first ones, in
order, of all values that were ever added to it** (`grows_and_lists_firsts`).

* `Grows`: what one catalog keeps of another. It is kept by each of the five steps (`grows_step`).
* `Archive.history`: the declarations that operations carry out. Handles count while they hold an
  entry of the edition in use.
* `enumNamed_carryOut`: what declarations do to one enum. They add the values that were declared
  under its name, until a declaration is refused; the refused one does nothing (`eq_of_refused`).
-/

namespace ShapedReply

namespace Catalog

variable {c c' : Catalog}

/-! ## What is kept -/

/-- All that a catalog has is kept by another, which may have more. -/
structure Grows (c c' : Catalog) : Prop where
  /-- Enums stay, with their values in front. -/
  enums : ∀ name e, c.enums.get? name = some e →
    ∃ e', c'.enums.get? name = some e' ∧ e.values <+: e'.values
  /-- Classes stay, with their properties in front. -/
  classes : ∀ name e, c.classes.get? name = some e →
    ∃ e', c'.classes.get? name = some e' ∧ e.declared <+: e'.declared
  /-- Marks stay in front. -/
  dynamic : c.dynamic <+: c'.dynamic

/-- A catalog grows from itself. -/
theorem Grows.refl (c : Catalog) : Grows c c where
  enums _ e he := ⟨e, he, List.prefix_rfl⟩
  classes _ e he := ⟨e, he, List.prefix_rfl⟩
  dynamic := List.prefix_rfl

/-- Growth goes on. -/
theorem Grows.trans {c'' : Catalog} (h : Grows c c') (h' : Grows c' c'') : Grows c c'' where
  enums name e he := by
    obtain ⟨e', he', hprefix⟩ := h.enums name e he
    obtain ⟨e'', he'', hprefix'⟩ := h'.enums name e' he'
    exact ⟨e'', he'', hprefix.trans hprefix'⟩
  classes name e he := by
    obtain ⟨e', he', hprefix⟩ := h.classes name e he
    obtain ⟨e'', he'', hprefix'⟩ := h'.classes name e' he'
    exact ⟨e'', he'', hprefix.trans hprefix'⟩
  dynamic := h.dynamic.trans h'.dynamic

/-- A step lets a catalog grow. -/
theorem grows_step (h : Step c c') : Grows c c' := by
  cases h with
  | enumOpened name hclass henum =>
    refine { Grows.refl c with enums := fun other e he => ⟨e, ?_, List.prefix_rfl⟩ }
    have hne : other ≠ name := by
      rintro rfl
      rw [Table.has, he] at henum
      cases henum
    rw [Table.get?_put_of_ne _ hne, he]
  | classOpened name henum hclass =>
    refine { Grows.refl c with classes := fun other e he => ⟨e, ?_, List.prefix_rfl⟩ }
    have hne : other ≠ name := by
      rintro rfl
      rw [Table.has, he] at hclass
      cases hclass
    rw [Table.get?_put_of_ne _ hne, he]
  | valueAdded name v =>
    refine { Grows.refl c with enums := fun other e he => ?_ }
    rw [withValue, Table.get?_modify, he]
    split
    · exact ⟨e.add v, rfl, e.values_prefix_add v⟩
    · exact ⟨e, rfl, List.prefix_rfl⟩
  | propertyAdded name p =>
    refine { Grows.refl c with classes := fun other e he => ?_ }
    rw [withProperty, Table.get?_modify, he]
    split
    · exact ⟨e.add p, rfl, e.declared_prefix_add p⟩
    · exact ⟨e, rfl, List.prefix_rfl⟩
  | marked name =>
    unfold withDynamic
    split
    · exact .refl c
    · exact { Grows.refl c with dynamic := List.prefix_append _ _ }

/-- Steps let a catalog grow. -/
theorem grows_steps (h : Steps c c') : Grows c c' := by
  induction h with
  | refl => exact .refl c
  | tail _ hlast ih => exact ih.trans (grows_step hlast)

/-! ## What is added to an enum -/

/-- The enum of a name; an empty one if there is none. -/
def enumNamed (c : Catalog) (name : String) : EnumEntry :=
  (c.enums.get? name).getD { name }

/-- The enum under a name, or a new one, is consistent. -/
theorem IsConsistent.isConsistent_enumNamed (h : c.IsConsistent) (name : String) :
    (c.enumNamed name).IsConsistent := by
  unfold enumNamed
  rcases he : c.enums.get? name with _ | e
  · exact EnumEntry.isConsistent_new name
  · exact (h.enums _ (Table.mem_of_get? he)).2

/-- A value is added to the enum that it is meant for, if that is there. -/
theorem enumNamed_withValue (c : Catalog) (other : String) (v : EnumValue) (name : String) :
    (c.withValue other v).enumNamed name =
      if c.enums.has other = true ∧ other = name then (c.enumNamed name).add v
      else c.enumNamed name := by
  rw [enumNamed, withValue, Table.get?_modify, enumNamed, Table.has]
  by_cases heq : other = name
  · subst heq
    rcases c.enums.get? other with _ | e
    · simp
    · simp
  · simp [heq]

/-- Values are added to the enum of their name, one after the other, and to no other. -/
theorem enumNamed_foldl_withValue {other : String} (h : c.enums.has other = true)
    (values : List EnumValue) (name : String) :
    (values.foldl (fun c v => c.withValue other v) c).enumNamed name =
      (if other = name then values else []).foldl EnumEntry.add (c.enumNamed name) := by
  induction values generalizing c with
  | nil => split <;> rfl
  | cons v values ih =>
    have hkeep : (c.withValue other v).enums.has other = true := by
      rw [withValue, Table.has_modify, h]
    rw [List.foldl_cons, ih hkeep, enumNamed_withValue]
    by_cases heq : other = name
    · subst heq
      simp [h]
    · simp [heq]

/-- A new enum is as good as none. -/
theorem enumNamed_put {other : String} (h : ¬ c.enums.has other = true) (name : String) :
    enumNamed { c with enums := c.enums.put other { name := other } } name = c.enumNamed name := by
  unfold enumNamed
  by_cases heq : name = other
  · subst heq
    rw [Table.has, Option.not_isSome_iff_eq_none] at h
    rw [Table.get?_put_self, h]
    rfl
  · rw [Table.get?_put_of_ne _ heq]

end Catalog

namespace Declaration

open Catalog

variable {c c' : Catalog}

/-- The values that are declared for an enum. -/
def valuesFor (name : String) : Declaration → List EnumValue
  | .enumWith other values => if other = name then values else []
  | _ => []

/-- A refused declaration leaves everything as it is. -/
theorem eq_of_refused {d : Declaration} {reason : CatalogError}
    (h : perform d.action c = (.error reason, c')) : c' = c := by
  cases d with
  | enumWith name values =>
    rw [action, perform_addValues] at h
    split at h <;> cases h
    rfl
  | classWith name properties =>
    rw [action, perform_addProperties] at h
    split at h <;> cases h
    rfl
  | mark name => cases h
  | marked name =>
    rw [action, requireDynamic, perform_bind_of_ok (perform_get c)] at h
    split at h <;> cases h
    rfl
  | refused reason =>
    cases h
    rfl

/-- A declaration adds its values to the enum that it names, and nothing to other enums. -/
theorem enumNamed_action {d : Declaration} {u : Unit} (h : perform d.action c = (.ok u, c'))
    (name : String) :
    c'.enumNamed name = (d.valuesFor name).foldl EnumEntry.add (c.enumNamed name) := by
  have hsame (heq : c'.enums = c.enums) : c'.enumNamed name = c.enumNamed name := by
    rw [enumNamed, heq, enumNamed]
  cases d with
  | enumWith other values =>
    rw [action, perform_addValues] at h
    split at h
    · cases h
    · cases h
      split
      · next hold => exact enumNamed_foldl_withValue hold values name
      · next hnew =>
        have hthere : (c.enums.put other { name := other }).has other = true :=
          (Table.has_put _ _ _ _).mpr (.inl rfl)
        rw [enumNamed_foldl_withValue hthere, enumNamed_put hnew]
        rfl
  | classWith other properties =>
    rw [action, perform_addProperties] at h
    split at h
    · cases h
    · cases h
      apply hsame
      refine (foldl_keeps Catalog.enums (by intros; rfl) _ _).trans ?_
      split <;> rfl
  | mark other =>
    cases h
    exact hsame (entries_withDynamic c other).1
  | marked other => exact hsame (congrArg Catalog.enums (eq_of_requireDynamic h))
  | refused reason => cases h

end Declaration

namespace Catalog

open Declaration

variable {c : Catalog}

/-- The declarations that are carried out, up to the first that is refused. -/
def carried : List Declaration → Catalog → List Declaration
  | [], _ => []
  | d :: ds, c => match perform d.action c with
    | (.ok _, c') => d :: carried ds c'
    | (.error _, _) => []

/-- Declarations add to an enum the values that those carried out declare for it. -/
theorem enumNamed_carryOut (ds : List Declaration) (c : Catalog) (name : String) :
    (perform (carryOut ds) c).2.enumNamed name =
      ((carried ds c).flatMap (valuesFor name)).foldl EnumEntry.add (c.enumNamed name) := by
  induction ds generalizing c with
  | nil => rfl
  | cons d ds ih =>
    rw [carryOut, carried]
    rcases hperform : perform d.action c with ⟨reason | u, c'⟩
    · rw [perform_bind_of_error hperform, eq_of_refused hperform]
      rfl
    · rw [perform_bind_of_ok hperform, ih, List.flatMap_cons, List.foldl_append,
        enumNamed_action hperform]

end Catalog

/-! ## Runs -/

namespace Archive

open Catalog Declaration

/-- The declarations that an operation carries out on the catalog in use. Through a handle an entry
is given one more value or property, if it is there. -/
def declared (a : Archive) : Operation → List Declaration
  | .addValue h v =>
    if a.edition ≤ h.edition ∧ a.current.enums.has h.name then [.enumWith h.name [v]] else []
  | .addProperty h p =>
    if a.edition ≤ h.edition ∧ a.current.classes.has h.name then [.classWith h.name [p]] else []
  | o => carried (o.plan a.current) a.current

/-- The declarations that operations carry out, one operation after the other. -/
def history (a : Archive) : List Operation → List Declaration
  | [] => []
  | o :: operations => a.declared o ++ (a.after o).history operations

/-- A value that is added through a handle goes to the enum that it is declared for. -/
theorem enumNamed_addValue (a : Archive) (h : Handle) (v : EnumValue) (name : String) :
    (a.addValue h v).current.enumNamed name =
      ((a.declared (.addValue h v)).flatMap (valuesFor name)).foldl EnumEntry.add
        (a.current.enumNamed name) := by
  rw [addValue, modifyAt, declared, edition]
  by_cases hpast : h.edition < a.past.length
  · rw [if_pos hpast, if_neg fun hboth => absurd hboth.1 (Nat.not_le.mpr hpast)]
    rfl
  · simp only [if_neg hpast, enumNamed_withValue, Nat.not_lt.mp hpast, true_and]
    by_cases hhas : a.current.enums.has h.name = true
    · by_cases heq : h.name = name
      · subst heq
        simp [hhas, valuesFor]
      · simp [hhas, heq, valuesFor]
    · simp [hhas]

/-- A property that is added through a handle goes to no enum. -/
theorem enumNamed_addProperty (a : Archive) (h : Handle) (p : ClassProperty) (name : String) :
    (a.addProperty h p).current.enumNamed name =
      ((a.declared (.addProperty h p)).flatMap (valuesFor name)).foldl EnumEntry.add
        (a.current.enumNamed name) := by
  have hnone : (a.declared (.addProperty h p)).flatMap (valuesFor name) = [] := by
    rw [declared]
    split <;> rfl
  rw [hnone, addProperty, modifyAt]
  split <;> rfl

/-- An operation adds to an enum the values that it declares for it. -/
theorem enumNamed_after (a : Archive) {o : Operation} (hclear : o ≠ .clear) (name : String) :
    (a.after o).current.enumNamed name =
      ((a.declared o).flatMap (valuesFor name)).foldl EnumEntry.add (a.current.enumNamed name) := by
  cases o with
  | addValue h v => exact a.enumNamed_addValue h v name
  | addProperty h p => exact a.enumNamed_addProperty h p name
  | clear => exact absurd rfl hclear
  | _ =>
    rw [a.current_after (by simp) (by simp) hclear]
    exact enumNamed_carryOut _ _ _

/-- Operations add to an enum the values that they declare for it. -/
theorem enumNamed_foldl_after (a : Archive) {operations : List Operation}
    (hclear : .clear ∉ operations) (name : String) :
    (operations.foldl after a).current.enumNamed name =
      ((a.history operations).flatMap (valuesFor name)).foldl EnumEntry.add
        (a.current.enumNamed name) := by
  induction operations generalizing a with
  | nil => rfl
  | cons o operations ih =>
    rw [List.mem_cons, not_or] at hclear
    rw [List.foldl_cons, ih _ hclear.2, history, List.flatMap_append, List.foldl_append,
      a.enumNamed_after (Ne.symm hclear.1)]

/-- **Catalogs only grow, and first declarations stand.** Whatever has been asked so far, one more
operation other than clearing keeps all enums, classes and marks, with what was appended so far in
front. Along any further operations other than clearing, the values of an enum are the first ones,
in order, among those that it had and all that were declared for it since: with nothing asked so
far, the first ones of all that were ever added. -/
theorem grows_and_lists_firsts (before : List Operation) :
    (∀ o, o ≠ .clear → Grows (run before).current ((run before).after o).current) ∧
      ∀ later, .clear ∉ later → ∀ name,
        ((run (before ++ later)).current.enumNamed name).values =
          firsts (·.value) (((run before).current.enumNamed name).values ++
            ((run before).history later).flatMap (valuesFor name)) := by
  constructor
  · intro o hclear
    exact grows_steps ((run before).steps_after hclear)
  · intro later hclear name
    have hconsistent : (run before).current.IsConsistent := IsReached.isConsistent ⟨before, rfl⟩
    rw [run, List.foldl_append, ← run, enumNamed_foldl_after _ hclear]
    exact (hconsistent.isConsistent_enumNamed name).values_foldl_add _

/-- A colour that is declared again, by a handle and among others, keeps its first declaration. A
source that fails has delivered what came before; an operation that is refused adds nothing, and
neither does a handle without an enum. -/
theorem grows_and_lists_firsts_colours :
    let red : EnumValue := { value := "red", spelling := some "r" }
    let before : List Operation := [.addValues "Colour" [red], .markDynamic "Colour"]
    let later : List Operation :=
      [.addValue ⟨0, .enumEntry, "Colour"⟩ { value := "red" },
        .extendEnum "Colour" { items := [{ value := "blue" }, { value := "red" }] },
        .extendEnum "Colour" { items := [{ value := "green" }], failure := some "cut short" },
        .addProperties "Colour" [], .addValue ⟨0, .enumEntry, "Shape"⟩ { value := "round" }]
    (∀ o ∈ later, Grows (run before).current ((run before).after o).current) ∧
      .clear ∉ later ∧
        ((run (before ++ later)).current.enumNamed "Colour").values =
          [red, { value := "blue" }, { value := "green" }] := by
  intro red before later
  have hclear : Operation.clear ∉ later := by simp [later]
  refine ⟨fun o ho => ?_, hclear, ?_⟩
  · exact (grows_and_lists_firsts before).1 o fun heq => hclear (heq ▸ ho)
  · rw [(grows_and_lists_firsts before).2 later hclear "Colour"]
    decide

end Archive

end ShapedReply
