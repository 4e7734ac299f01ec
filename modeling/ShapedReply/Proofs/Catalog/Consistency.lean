import ShapedReply.Proofs.Catalog.Entries
import ShapedReply.Proofs.Catalog.Steps

/-!
# Catalogs are consistent

Whatever is asked of a catalog, in whatever order, and wherever an action fails halfway, **the
catalog that is left is consistent, and what it knows under a name is sound** (`isConsistent_run`).

* `Catalog.IsConsistent`: all entries are consistent and stand under their own names, no name is
  that of an enum and of a class, and no name is marked twice. It holds of the empty catalog and is
  kept by each of the five steps (`IsConsistent.step`).
* `IsConsistent.isSound_of_resolve`: the definition of a consistent entry is sound. Other spellings
  lead to values of the enum, and an object requires exactly the properties that are not optional.
-/

namespace ShapedReply

/-! ## Definitions -/

/-- Whether a definition is an enum. -/
def Definition.isEnum : Definition → Bool
  | .enum .. => true
  | .object .. => false

/-- A definition in order: the other spellings of an enum lead to its values, and an object requires
exactly the declared properties that are not optional. -/
def Definition.IsSound : Definition → Prop
  | .enum values aliases => ∀ a ∈ aliases, a.2 ∈ values
  | .object properties required _ =>
    ∀ name, name ∈ required ↔ ∃ s, Table.get? properties name = some s ∧ s.isOptional = false

/-- Other spellings are collected from the values. -/
theorem EnumValue.isSound_define (values : List EnumValue) : (define values).IsSound := by
  intro a ha
  have hcollected := (Table.mem_update (t := []) ha).resolve_left List.not_mem_nil
  obtain ⟨v, hv, hspelling⟩ := List.mem_filterMap.mp hcollected
  obtain ⟨s, -, rfl⟩ := Option.map_eq_some_iff.mp hspelling
  exact List.mem_map_of_mem hv

/-- Properties with distinct names define an object that requires exactly those that are not
optional. -/
theorem ClassProperty.isSound_define {properties : List ClassProperty}
    (h : (properties.map (·.name)).Nodup) : (define properties).IsSound := by
  have hnames : (Table.names (properties.map fun p => (p.name, p.schema))).Nodup := by
    rw [Table.names, List.map_map]
    exact h
  intro name
  rw [List.mem_map]
  constructor
  · rintro ⟨p, hp, rfl⟩
    obtain ⟨hp, hrequired⟩ := List.mem_filter.mp hp
    have hmem : (p.name, p.schema) ∈ properties.map fun p => (p.name, p.schema) :=
      List.mem_map_of_mem hp
    exact ⟨p.schema, Table.get?_of_mem hnames hmem, by simpa using hrequired⟩
  · rintro ⟨s, hs, hrequired⟩
    obtain ⟨p, hp, heq⟩ := List.mem_map.mp (Table.mem_of_get? hs)
    obtain ⟨rfl, rfl⟩ := Prod.mk.inj heq
    exact ⟨p, List.mem_filter.mpr ⟨hp, by simp [hrequired]⟩, rfl⟩

namespace Catalog

/-! ## Catalogs -/

/-- What holds between the parts of a catalog. -/
structure IsConsistent (c : Catalog) : Prop where
  /-- No name is that of an enum and of a class. -/
  apart : ∀ name, ¬ (c.enums.has name = true ∧ c.classes.has name = true)
  /-- A name stands for one enum. -/
  enumNames : (Table.names c.enums).Nodup
  /-- A name stands for one class. -/
  classNames : (Table.names c.classes).Nodup
  /-- Enums stand under their own names and are consistent. -/
  enums : ∀ e ∈ c.enums, e.2.name = e.1 ∧ e.2.IsConsistent
  /-- Classes stand under their own names and are consistent. -/
  classes : ∀ e ∈ c.classes, e.2.name = e.1 ∧ e.2.IsConsistent
  /-- No name is marked twice. -/
  dynamic : c.dynamic.Nodup

/-- An empty catalog is consistent. -/
theorem isConsistent_empty : IsConsistent {} where
  apart _ := nofun
  enumNames := List.nodup_nil
  classNames := List.nodup_nil
  enums := nofun
  classes := nofun
  dynamic := List.nodup_nil

/-- A step keeps a catalog consistent. -/
theorem IsConsistent.step {c c' : Catalog} (hstep : Step c c') (hc : c.IsConsistent) :
    c'.IsConsistent := by
  cases hstep with
  | enumOpened name hclass henum =>
    refine { hc with
      apart := ?_
      enumNames := Table.nodup_names_put hc.enumNames name _
      enums := ?_ }
    · rintro other ⟨hother, hboth⟩
      rcases (Table.has_put c.enums name { name } other).mp hother with rfl | hother
      · exact Bool.false_ne_true (hclass.symm.trans hboth)
      · exact hc.apart other ⟨hother, hboth⟩
    · intro e he
      rcases Table.mem_put he with rfl | he
      · exact ⟨rfl, EnumEntry.isConsistent_new name⟩
      · exact hc.enums e he
  | classOpened name henum hclass =>
    refine { hc with
      apart := ?_
      classNames := Table.nodup_names_put hc.classNames name _
      classes := ?_ }
    · rintro other ⟨hboth, hother⟩
      rcases (Table.has_put c.classes name { name } other).mp hother with rfl | hother
      · exact Bool.false_ne_true (henum.symm.trans hboth)
      · exact hc.apart other ⟨hboth, hother⟩
    · intro e he
      rcases Table.mem_put he with rfl | he
      · exact ⟨rfl, ClassEntry.isConsistent_new name⟩
      · exact hc.classes e he
  | valueAdded name v =>
    refine { hc with apart := ?_, enumNames := ?_, enums := ?_ }
    · intro other
      rw [withValue, Table.has_modify]
      exact hc.apart other
    · rw [withValue, Table.names_modify]
      exact hc.enumNames
    · refine Table.forall_modify hc.enums ?_ name
      rintro e - ⟨hname, hentry⟩
      exact ⟨(EnumEntry.name_add e.2 v).trans hname, hentry.add v⟩
  | propertyAdded name p =>
    refine { hc with apart := ?_, classNames := ?_, classes := ?_ }
    · intro other
      rw [withProperty, Table.has_modify]
      exact hc.apart other
    · rw [withProperty, Table.names_modify]
      exact hc.classNames
    · refine Table.forall_modify hc.classes ?_ name
      rintro e - ⟨hname, hentry⟩
      exact ⟨(ClassEntry.name_add e.2 p).trans hname, hentry.add p⟩
  | marked name =>
    unfold withDynamic
    split
    · exact hc
    · next hnew =>
      rw [List.contains_iff_mem] at hnew
      have hmarks : (c.dynamic ++ [name]).Nodup :=
        hc.dynamic.append (List.nodup_singleton name) (List.disjoint_singleton.mpr hnew)
      exact { hc with dynamic := hmarks }

/-- Every catalog that is reached is consistent. -/
theorem IsReached.isConsistent {c : Catalog} (h : c.IsReached) : c.IsConsistent :=
  h.of_step isConsistent_empty fun _ _ hstep => IsConsistent.step hstep

/-! ## What is known under a name -/

variable {c : Catalog} {name : String}

/-- A name stands for its enum, or else for its class. -/
theorem resolve_eq (c : Catalog) (name : String) :
    c.resolve name = ((c.enums.get? name).map EnumEntry.define).or
      ((c.classes.get? name).map ClassEntry.define) := by
  rw [resolve, definitions, Table.get?, List.lookup_append]
  exact congrArg₂ Option.or (Table.get?_mapEntries _ _ _) (Table.get?_mapEntries _ _ _)

/-- A name is there exactly if something is known under it. -/
theorem has_eq_isSome_resolve (c : Catalog) (name : String) :
    c.has name = (c.resolve name).isSome := by
  rw [resolve_eq, Option.isSome_or, Option.isSome_map, Option.isSome_map]
  rfl

/-- What is known under a name is the definition of an enum or of a class of that name. -/
theorem resolve_eq_some {d : Definition} (h : c.resolve name = some d) :
    (∃ e, c.enums.get? name = some e ∧ d = e.define) ∨
      ∃ e, c.classes.get? name = some e ∧ d = e.define := by
  rw [resolve_eq, Option.or_eq_some_iff] at h
  rcases h with h | ⟨-, h⟩
  · obtain ⟨e, he, rfl⟩ := Option.map_eq_some_iff.mp h
    exact .inl ⟨e, he, rfl⟩
  · obtain ⟨e, he, rfl⟩ := Option.map_eq_some_iff.mp h
    exact .inr ⟨e, he, rfl⟩

/-- What is known under a name is an enum if the name is that of an enum. -/
theorem isEnum_of_resolve {d : Definition} (h : c.resolve name = some d) :
    d.isEnum = c.enums.has name := by
  rw [resolve_eq, Option.or_eq_some_iff] at h
  rcases h with h | ⟨hnone, h⟩
  · obtain ⟨e, he, rfl⟩ := Option.map_eq_some_iff.mp h
    rw [Table.has, he]
    rfl
  · obtain ⟨e, -, rfl⟩ := Option.map_eq_some_iff.mp h
    rw [Table.has, Option.map_eq_none_iff.mp hnone]
    rfl

/-- What a consistent catalog knows is sound. -/
theorem IsConsistent.isSound_of_resolve (hc : c.IsConsistent) {d : Definition}
    (h : c.resolve name = some d) : d.IsSound := by
  rcases resolve_eq_some h with ⟨e, -, rfl⟩ | ⟨e, he, rfl⟩
  · exact EnumValue.isSound_define e.values
  · have hentry := (hc.classes _ (Table.mem_of_get? he)).2
    apply ClassProperty.isSound_define
    rw [hentry.names_declared]
    exact hentry.nodup

/-- **Catalogs are consistent.** After any operations, failed ones included, wherever they failed
and whatever the classes and sources from outside did, no name is that of an enum and of a class,
entries stand under their own names, no value, property or mark is there twice, and enums have seen
exactly the values that they list. Under every name that is there the catalog knows a sound
definition: under the name of an enum, an enum whose other spellings lead to its values; under the
name of a class, an object that requires exactly the declared properties that are not optional. -/
theorem isConsistent_run (operations : List Archive.Operation) :
    (Archive.run operations).current.IsConsistent ∧
      ∀ name, (Archive.run operations).current.has name = true →
        ∃ d, (Archive.run operations).current.resolve name = some d ∧
          d.isEnum = (Archive.run operations).current.enums.has name ∧ d.IsSound := by
  have hconsistent : (Archive.run operations).current.IsConsistent :=
    IsReached.isConsistent ⟨operations, rfl⟩
  refine ⟨hconsistent, ?_⟩
  intro name hname
  rw [has_eq_isSome_resolve] at hname
  obtain ⟨d, hd⟩ := Option.isSome_iff_exists.mp hname
  exact ⟨d, hd, isEnum_of_resolve hd, hconsistent.isSound_of_resolve hd⟩

end Catalog

end ShapedReply
