import ShapedReply.Proofs.Schema.Acceptance

/-!
# Acceptance depends on the names in scope

A check looks up the names that the schema mentions, and then those that their definitions mention.
If one resolver means by each name of a closed scope what another one means by it (`Simulates`),
then **both accept the same values for every schema that keeps to the scope**
(`Simulates.accepts_iff`), if all literals can be written.

Definitions may refer to each other in circles, so the schema does not get smaller where a name is
followed. The induction is on the value, with one on the schema inside: behind a name stands an
enum, which is checked at once, or an object, which is checked on smaller values.
-/

namespace ShapedReply

open Check

/-- The names that a part of a schema mentions are mentioned by the schema. -/
theorem Schema.references_of_mem_parts {s x : Schema} (hx : x ∈ s.parts) :
    x.references ⊆ s.references := by
  have hmembers {members : List Schema} (h : x ∈ members) :
      x.references ⊆ Schema.memberReferences members := by
    induction members with
    | nil => cases h
    | cons y members ih =>
      rw [Schema.memberReferences]
      rcases List.mem_cons.mp h with rfl | h
      · exact List.subset_append_left _ _
      · exact List.subset_append_of_subset_right _ (ih h)
  have hproperties {properties : List (String × Schema)} (h : x ∈ properties.map (·.2)) :
      x.references ⊆ Schema.propertyReferences properties := by
    induction properties with
    | nil => cases h
    | cons e properties ih =>
      rw [Schema.propertyReferences]
      rcases List.mem_cons.mp h with rfl | h
      · exact List.subset_append_left _ _
      · exact List.subset_append_of_subset_right _ (ih h)
  cases s with
  | array s =>
    obtain rfl := List.mem_singleton.mp hx
    exact List.Subset.refl _
  | map key s =>
    rw [Schema.references]
    simp only [Schema.parts, List.mem_cons, List.not_mem_nil, or_false] at hx
    rcases hx with rfl | rfl
    · exact List.subset_append_left _ _
    · exact List.subset_append_right _ _
  | object properties required additional descriptions =>
    rw [Schema.parts, List.mem_append] at hx
    cases additional with
    | none =>
      rcases hx with hx | hx
      · exact List.subset_append_of_subset_left _ (hproperties hx)
      · cases hx
    | some s =>
      rcases hx with hx | hx
      · exact List.subset_append_of_subset_left _ (hproperties hx)
      · obtain rfl := List.mem_singleton.mp hx
        exact List.subset_append_right _ _
  | anyOf members => exact hmembers hx
  | optional s =>
    obtain rfl := List.mem_singleton.mp hx
    exact List.Subset.refl _
  | _ => cases hx

/-- Within a scope, a resolver means by a name what another one does, and the definitions of the
latter keep to the scope. -/
structure Simulates (scope : String → Prop) (resolve resolve' : Resolver) : Prop where
  /-- Both mean the same by a name. -/
  means : ∀ {name}, scope name → ∀ v, Accepts resolve' v (.ref name) ↔
    ∀ d, resolve name = some d → Accepts resolve' v d.toSchema
  /-- Definitions mention names of the scope only. -/
  closed : ∀ {name d}, scope name → resolve name = some d →
    ∀ other ∈ d.toSchema.references, scope other

/-- **Acceptance depends on the names in scope.** -/
theorem Simulates.accepts_iff {scope : String → Prop} {resolve resolve' : Resolver}
    (h : Simulates scope resolve resolve') (hresolve : resolve.HasWritableLiterals)
    (hresolve' : resolve'.HasWritableLiterals) (v : Value) :
    ∀ s : Schema, (∀ name ∈ s.references, scope name) → s.HasWritableLiterals →
      (Accepts resolve' v s ↔ Accepts resolve v s) := by
  induction v using Value.ind with
  | step v hitems hfields =>
  have hobject (properties required additional descriptions)
      (hscope : ∀ name ∈ (Schema.object properties required additional descriptions).references,
        scope name)
      (hwritable :
        (Schema.object properties required additional descriptions).HasWritableLiterals) :
      Accepts resolve' v (.object properties required additional descriptions) ↔
        Accepts resolve v (.object properties required additional descriptions) := by
    rw [accepts_object, accepts_object]
    refine exists_congr fun es => and_congr_right fun hv => and_congr_right fun _ =>
      forall₂_congr fun e he => forall₂_congr fun s hs => ?_
    subst hv
    have hpart : s ∈ (Schema.object properties required additional descriptions).parts :=
      mem_parts_of_fieldSchema hs
    exact hfields e he s
      (fun name hname => hscope name (Schema.references_of_mem_parts hpart hname))
      (hwritable.of_mem_parts hpart)
  intro s hs hwritable
  induction s using Schema.ind with
  | step s ih =>
  have hparts : ∀ x ∈ s.parts, ∀ name ∈ x.references, scope name := fun x hx name hname =>
    hs name (Schema.references_of_mem_parts hx hname)
  cases s with
  | array s =>
    rw [accepts_array, accepts_array]
    refine exists_congr fun xs => and_congr_right fun hv => forall₂_congr fun x hx => ?_
    subst hv
    have hpart : s ∈ (Schema.array s).parts := by simp [Schema.parts]
    exact hitems x hx s (hparts s hpart) (hwritable.of_mem_parts hpart)
  | map key s =>
    rw [accepts_map, accepts_map]
    refine exists_congr fun es => and_congr_right fun hv => forall₂_congr fun e he => ?_
    subst hv
    have hpart : s ∈ (Schema.map key s).parts := by simp [Schema.parts]
    exact hfields e he s (hparts s hpart) (hwritable.of_mem_parts hpart)
  | object properties required additional descriptions => exact hobject _ _ _ _ hs hwritable
  | ref name =>
    have hname : scope name := hs name (by simp [Schema.references])
    rw [h.means hname, accepts_ref]
    refine forall₂_congr fun d hd => ?_
    cases d with
    | enum values aliases => rw [Definition.toSchema, accepts_enum, accepts_enum]
    | object properties required descriptions =>
      exact hobject _ _ _ _ (h.closed hname hd) (hresolve name _ hd)
  | anyOf members =>
    rw [accepts_anyOf_of_writable hresolve' hwritable, accepts_anyOf_of_writable hresolve hwritable]
    refine exists_congr fun s => and_congr_right fun hmem => ?_
    exact ih s hmem (hparts s hmem) (hwritable.of_mem_parts hmem)
  | optional s =>
    have hinner : s ∈ (Schema.optional s).parts := by simp [Schema.parts]
    rw [accepts_optional, accepts_optional,
      ih s hinner (hparts s hinner) (hwritable.of_mem_parts hinner)]
  | _ => rw [Accepts, Accepts, check_eq, check_eq, checkNode, checkNode]

end ShapedReply
