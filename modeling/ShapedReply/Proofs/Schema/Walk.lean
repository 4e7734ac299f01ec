import Mathlib.Data.List.Forall2
import ShapedReply.Check
import ShapedReply.Fit
import ShapedReply.Proofs.Outcome
import ShapedReply.Proofs.Table

/-!
# Walking down values and schemas

Fitting and checking are one recursion over the value, `Value.fold`, with the schema carried along.
This file turns that recursion into equations and an induction principle, so that no proof about
fitting or checking opens the fold again.

* `Value.ind`: a property holds of a value when it holds of its items and of the values of its
  fields.
* `fit_eq`: fitting hands a node the fits of its parts; `check_eq` is its twin for checking.
* `fit_array_eq_ok_iff`, `fit_map_eq_ok_iff`: what fits an array or a map schema.
* `mem_fitDeclared`, `mem_fitUndeclared`: where the fields of a map that fits an object schema come
  from.
* `Schema.everywhere`: a condition on schemas that is asked of every schema inside one as well.
* `Schema.ind`: a property holds of a schema when it holds of its parts; `everywhere_iff` takes a
  condition that holds everywhere apart in the same way.
-/

namespace ShapedReply

/-! ## Values -/

namespace Value

/-- The items of an array; other values have none. -/
def items : Value → List Value
  | .array xs => xs
  | _ => []

/-- The fields of a map; other values have none. -/
def fields : Value → List (String × Value)
  | .map es => es
  | _ => []

mutual

/-- Induction over values: a property that passes from the parts of a value to the value holds of
every value. -/
theorem ind {P : Value → Prop}
    (step : ∀ v : Value, (∀ x ∈ v.items, P x) → (∀ e ∈ v.fields, P e.2) → P v) :
    (v : Value) → P v
  | .array xs => step _ (ind_items step xs) (by simp [fields])
  | .map es => step _ (by simp [items]) (ind_fields step es)
  | .null => step _ (by simp [items]) (by simp [fields])
  | .bool _ => step _ (by simp [items]) (by simp [fields])
  | .int _ => step _ (by simp [items]) (by simp [fields])
  | .float _ => step _ (by simp [items]) (by simp [fields])
  | .str _ => step _ (by simp [items]) (by simp [fields])

/-- The induction for the items of an array. -/
theorem ind_items {P : Value → Prop}
    (step : ∀ v : Value, (∀ x ∈ v.items, P x) → (∀ e ∈ v.fields, P e.2) → P v) :
    (xs : List Value) → ∀ x ∈ xs, P x
  | [] => by simp
  | x :: xs => List.forall_mem_cons.mpr ⟨ind step x, ind_items step xs⟩

/-- The induction for the fields of a map. -/
theorem ind_fields {P : Value → Prop}
    (step : ∀ v : Value, (∀ x ∈ v.items, P x) → (∀ e ∈ v.fields, P e.2) → P v) :
    (es : List (String × Value)) → ∀ e ∈ es, P e.2
  | [] => by simp
  | (_, x) :: es => List.forall_mem_cons.mpr ⟨ind step x, ind_fields step es⟩

end

/-- The fold hands a node its parts with their answers. -/
theorem fold_eq {α : Type} (node : Node α) (v : Value) :
    v.fold node = node v (v.items.map fun x => ⟨x, x.fold node⟩)
      (v.fields.map fun e => (e.1, ⟨e.2, e.2.fold node⟩)) := by
  cases v <;> simp [fold, items, fields, foldItems_eq_map, foldEntries_eq_map]

end Value

/-! ## Schemas -/

namespace Schema

mutual

/-- Whether a condition holds of a schema and of every schema inside it. -/
def everywhere (p : Schema → Bool) : Schema → Bool
  | .array s => p (.array s) && everywhere p s
  | .map key s => p (.map key s) && everywhere p key && everywhere p s
  | .object properties required additional descriptions =>
    p (.object properties required additional descriptions) && everywhereNamed p properties
      && (match additional with
        | some s => everywhere p s
        | none => true)
  | .anyOf members => p (.anyOf members) && everywhereListed p members
  | .optional s => p (.optional s) && everywhere p s
  | s => p s

/-- Whether a condition holds in every schema of a list. -/
def everywhereListed (p : Schema → Bool) : List Schema → Bool
  | [] => true
  | s :: rest => everywhere p s && everywhereListed p rest

/-- Whether a condition holds in every schema of a table. -/
def everywhereNamed (p : Schema → Bool) : List (String × Schema) → Bool
  | [] => true
  | (_, s) :: rest => everywhere p s && everywhereNamed p rest

end

/-- The schemas that stand directly inside a schema. -/
def parts : Schema → List Schema
  | .array s => [s]
  | .map key s => [key, s]
  | .object properties _ additional _ => properties.map (·.2) ++ additional.toList
  | .anyOf members => members
  | .optional s => [s]
  | _ => []

mutual

/-- Induction over schemas: a property that passes from the parts of a schema to the schema holds of
every schema. -/
theorem ind {P : Schema → Prop} (step : ∀ s : Schema, (∀ x ∈ s.parts, P x) → P s) :
    (s : Schema) → P s
  | .array s => step _ (by simpa [parts] using ind step s)
  | .map key s => step _ (by simpa [parts] using ⟨ind step key, ind step s⟩)
  | .object properties _ additional _ => step _ (by
      intro x hx
      rcases List.mem_append.mp hx with hx | hx
      · exact ind_named step properties x hx
      · cases additional with
        | none => exact absurd hx List.not_mem_nil
        | some s =>
          rw [List.mem_singleton.mp hx]
          exact ind step s)
  | .anyOf members => step _ (ind_listed step members)
  | .optional s => step _ (by simpa [parts] using ind step s)
  | .string => step _ (by simp [parts])
  | .int => step _ (by simp [parts])
  | .float => step _ (by simp [parts])
  | .bool => step _ (by simp [parts])
  | .null => step _ (by simp [parts])
  | .enum .. => step _ (by simp [parts])
  | .ref _ => step _ (by simp [parts])
  | .external _ => step _ (by simp [parts])
  | .literal _ => step _ (by simp [parts])

/-- The induction for the members of a union. -/
theorem ind_listed {P : Schema → Prop} (step : ∀ s : Schema, (∀ x ∈ s.parts, P x) → P s) :
    (members : List Schema) → ∀ x ∈ members, P x
  | [] => by simp
  | s :: rest => List.forall_mem_cons.mpr ⟨ind step s, ind_listed step rest⟩

/-- The induction for the properties of an object. -/
theorem ind_named {P : Schema → Prop} (step : ∀ s : Schema, (∀ x ∈ s.parts, P x) → P s) :
    (properties : List (String × Schema)) → ∀ x ∈ properties.map (·.2), P x
  | [] => by simp
  | (_, s) :: rest => List.forall_mem_cons.mpr ⟨ind step s, ind_named step rest⟩

end

variable {p : Schema → Bool}

/-- A condition holds everywhere in members if it does in each of them. -/
theorem everywhereListed_iff {members : List Schema} :
    everywhereListed p members = true ↔ ∀ x ∈ members, x.everywhere p = true := by
  induction members with
  | nil => simp [everywhereListed]
  | cons s rest ih => simp [everywhereListed, ih]

/-- A condition holds everywhere in properties if it does in each of them. -/
theorem everywhereNamed_iff {properties : List (String × Schema)} :
    everywhereNamed p properties = true ↔ ∀ x ∈ properties.map (·.2), x.everywhere p = true := by
  induction properties with
  | nil => simp [everywhereNamed]
  | cons e rest ih =>
    obtain ⟨name, s⟩ := e
    rw [everywhereNamed, Bool.and_eq_true, ih, List.map_cons, List.forall_mem_cons]

/-- A condition is met everywhere in a schema when the schema meets it and it is met everywhere in
the parts. -/
theorem everywhere_iff {s : Schema} :
    s.everywhere p = true ↔ p s = true ∧ ∀ x ∈ s.parts, x.everywhere p = true := by
  cases s with
  | object properties required additional descriptions =>
    cases additional with
    | none => simp [everywhere, parts, everywhereNamed_iff]
    | some s =>
      simp only [everywhere, Bool.and_eq_true, everywhereNamed_iff, and_assoc, parts,
        List.forall_mem_append]
      simp
  | anyOf members => simp [everywhere, parts, everywhereListed_iff]
  | _ => simp [everywhere, parts, and_assoc]

/-- The schema itself meets a condition that is met everywhere in it. -/
theorem everywhere_self {s : Schema} (h : s.everywhere p = true) : p s = true := by
  rw [everywhere.eq_def] at h
  split at h <;> simp_all

/-- A condition that follows from one that is met everywhere is met everywhere. -/
theorem everywhere_mono {q : Schema → Bool} (hpq : ∀ n, p n = true → q n = true) {s : Schema}
    (h : s.everywhere p = true) : s.everywhere q = true := by
  induction s using Schema.ind with
  | step s ih =>
  obtain ⟨hself, hparts⟩ := everywhere_iff.mp h
  exact everywhere_iff.mpr ⟨hpq s hself, fun x hx => ih x hx (hparts x hx)⟩

/-- A condition met everywhere in a table of schemas is met in each of them. -/
theorem everywhere_of_mem {properties : List (String × Schema)}
    (h : everywhereNamed p properties = true) :
    ∀ e ∈ properties, e.2.everywhere p = true := by
  induction properties with
  | nil => simp
  | cons e properties ih =>
    obtain ⟨h₁, h₂⟩ : e.2.everywhere p = true ∧ everywhereNamed p properties = true := by
      simpa [everywhereNamed] using h
    intro f hf
    rcases List.mem_cons.mp hf with rfl | hf
    · exact h₁
    · exact ih h₂ f hf

end Schema

/-! ## Fitting -/

namespace Fit

open Outcome

variable {resolve : Resolver}

/-- A value on its way through a fit. -/
def waiting (resolve : Resolver) (v : Value) : Waiting := ⟨v, fit resolve v⟩

/-- A field on its way through a fit. -/
def waitingField (resolve : Resolver) (e : String × Value) : String × Waiting :=
  (e.1, waiting resolve e.2)

/-- Fitting asks the node for its schema and hands it the same fit at its parts. -/
theorem fit_eq (v : Value) (s : Schema) :
    fit resolve v s = fitNode resolve v (v.items.map (waiting resolve))
      (v.fields.map (waitingField resolve)) s := by
  unfold fit
  rw [Value.fold_eq]
  rfl

/-- Where an error is reported from makes no difference to a success. -/
theorem under_eq_ok {α : Type} {step : Step} {r : Result α} {a : α} :
    under step r = .ok a ↔ r = .ok a :=
  mapError_eq_ok_iff

/-- The items of an array fit when each of them does. -/
theorem fitItems_eq_ok_iff {s : Schema} {xs ws : List Value} {i : Nat} :
    fitItems s i (xs.map (waiting resolve)) = .ok ws ↔
      List.Forall₂ (fun x w => fit resolve x s = .ok w) xs ws := by
  induction xs generalizing i ws with
  | nil =>
    simp only [List.map_nil, fitItems, Except.ok.injEq, List.forall₂_nil_left_iff]
    exact eq_comm
  | cons x xs ih =>
    rw [List.forall₂_cons_left_iff]
    simp only [List.map_cons, fitItems, bind_eq_ok_iff, under_eq_ok, ih]
    constructor
    · rintro ⟨w, hw, us, hus, hws⟩
      cases hws
      exact ⟨w, us, hw, hus, rfl⟩
    · rintro ⟨w, us, hw, hus, rfl⟩
      exact ⟨w, hw, us, hus, rfl⟩

/-- The entries of a map fit one schema when each of them does, under its name. -/
theorem fitEntries_eq_ok_iff {s : Schema} {es ws : List (String × Value)} :
    fitEntries s (es.map (waitingField resolve)) = .ok ws ↔
      List.Forall₂ (fun e w => e.1 = w.1 ∧ fit resolve e.2 s = .ok w.2) es ws := by
  induction es generalizing ws with
  | nil =>
    simp only [List.map_nil, fitEntries, Except.ok.injEq, List.forall₂_nil_left_iff]
    exact eq_comm
  | cons e es ih =>
    rw [List.forall₂_cons_left_iff]
    simp only [List.map_cons, fitEntries, waitingField, bind_eq_ok_iff, under_eq_ok]
    constructor
    · rintro ⟨x, hx, us, hus, hws⟩
      cases hws
      exact ⟨(e.1, x), us, ⟨rfl, hx⟩, ih.mp hus, rfl⟩
    · rintro ⟨w, us, ⟨hname, hw⟩, hus, rfl⟩
      exact ⟨w.2, hw, us, ih.mpr hus, by rw [hname]; rfl⟩

/-- What stands in a list comes from what it is related to, place by place. -/
theorem exists_mem_of_forall₂ {α β : Type} {R : α → β → Prop} {xs : List α} {ws : List β}
    (h : List.Forall₂ R xs ws) : ∀ w ∈ ws, ∃ x ∈ xs, R x w := by
  induction h with
  | nil => simp
  | @cons x w xs ws hx _ ih =>
    rw [List.forall_mem_cons]
    refine ⟨⟨x, List.mem_cons_self, hx⟩, ?_⟩
    intro u hu
    obtain ⟨y, hy, hyu⟩ := ih u hu
    exact ⟨y, List.mem_cons_of_mem x hy, hyu⟩

/-- **What fits an array schema is an array**, and it fits item by item. -/
theorem fit_array_eq_ok_iff {v w : Value} {s : Schema} :
    fit resolve v (.array s) = .ok w ↔ ∃ xs ws, v = .array xs ∧ w = .array ws ∧
      List.Forall₂ (fun x y => fit resolve x s = .ok y) xs ws := by
  rw [fit_eq]
  constructor
  · intro h
    cases v with
    | array xs =>
      obtain ⟨ws, hws, rfl⟩ := map_eq_ok_iff.mp h
      exact ⟨xs, ws, rfl, rfl, fitItems_eq_ok_iff.mp hws⟩
    | null | bool _ | int _ | float _ | str _ | map _ => cases h
  · rintro ⟨xs, ws, rfl, rfl, hall⟩
    exact map_eq_ok_iff.mpr ⟨ws, fitItems_eq_ok_iff.mpr hall, rfl⟩

/-- **What fits a map schema is a map**, and it fits entry by entry, under the same names. -/
theorem fit_map_eq_ok_iff {v w : Value} {key s : Schema} :
    fit resolve v (.map key s) = .ok w ↔ ∃ es fs, v = .map es ∧ w = .map fs ∧
      List.Forall₂ (fun e f => e.1 = f.1 ∧ fit resolve e.2 s = .ok f.2) es fs := by
  rw [fit_eq]
  constructor
  · intro h
    cases v with
    | map es =>
      obtain ⟨fs, hfs, rfl⟩ := map_eq_ok_iff.mp h
      exact ⟨es, fs, rfl, rfl, fitEntries_eq_ok_iff.mp hfs⟩
    | null | bool _ | int _ | float _ | str _ | array _ => cases h
  · rintro ⟨es, fs, rfl, rfl, hall⟩
    exact map_eq_ok_iff.mpr ⟨fs, fitEntries_eq_ok_iff.mpr hall, rfl⟩

/-- Each declared field of a fitted map comes from a field of the same name that fits the schema
declared for it. -/
theorem mem_fitDeclared {es : List (String × Value)} {properties : List (String × Schema)}
    {ws : List (String × Value)}
    (h : fitDeclared (es.map (waitingField resolve)) properties = .ok ws) :
    ∀ w ∈ ws, ∃ p ∈ properties, ∃ e ∈ es, p.1 = w.1 ∧ e.1 = w.1 ∧
      fit resolve e.2 p.2 = .ok w.2 := by
  induction properties generalizing ws with
  | nil =>
    simp only [fitDeclared, Except.ok.injEq] at h
    subst h
    simp
  | cons p properties ih =>
    have weaken : ∀ us : List (String × Value),
        fitDeclared (es.map (waitingField resolve)) properties = .ok us →
        ∀ w ∈ us, ∃ q ∈ p :: properties, ∃ e ∈ es, q.1 = w.1 ∧ e.1 = w.1 ∧
          fit resolve e.2 q.2 = .ok w.2 := by
      intro us hus w hw
      obtain ⟨q, hq, hrest⟩ := ih hus w hw
      exact ⟨q, List.mem_cons_of_mem p hq, hrest⟩
    obtain ⟨name, s⟩ := p
    simp only [fitDeclared] at h
    rcases hfound : (es.map (waitingField resolve)).lookup name with _ | part
    · rw [hfound] at h
      exact weaken ws h
    · obtain ⟨before, after, hsplit, -⟩ := List.lookup_eq_some_iff.mp hfound
      have hmem : (name, part) ∈ es.map (waitingField resolve) := by
        rw [hsplit]
        simp
      obtain ⟨e, he, hpart⟩ := List.mem_map.mp hmem
      simp only [waitingField, Prod.mk.injEq] at hpart
      obtain ⟨hname, rfl⟩ := hpart
      simp only [hfound, bind_eq_ok_iff, under_eq_ok] at h
      obtain ⟨x, hx, us, hus, hws⟩ := h
      cases hws
      rw [List.forall_mem_cons]
      exact ⟨⟨(name, s), List.mem_cons_self, e, he, rfl, hname, hx⟩, weaken us hus⟩

/-- Each undeclared field of a fitted map comes from an undeclared field of the same name, which
fits the schema for undeclared fields where there is one. -/
theorem mem_fitUndeclared {additional : Option Schema} {properties : List (String × Schema)}
    {es ws : List (String × Value)}
    (h : fitUndeclared additional
      ((es.map (waitingField resolve)).filter fun f => !Table.has properties f.1) = .ok ws) :
    ∀ w ∈ ws, ∃ e ∈ es, e.1 = w.1 ∧ Table.has properties w.1 = false ∧
      match additional with
      | some s => fit resolve e.2 s = .ok w.2
      | none => e.2 = w.2 := by
  have hfilter : (es.map (waitingField resolve)).filter (fun f => !Table.has properties f.1) =
      (es.filter fun e => !Table.has properties e.1).map (waitingField resolve) := by
    rw [List.filter_map]
    rfl
  rw [hfilter] at h
  intro w hw
  cases additional with
  | some s =>
    obtain ⟨e, he, hname, hfit⟩ := exists_mem_of_forall₂ (fitEntries_eq_ok_iff.mp h) w hw
    obtain ⟨he, hfree⟩ := List.mem_filter.mp he
    exact ⟨e, he, hname, by simpa [hname] using hfree, hfit⟩
  | none =>
    simp only [fitUndeclared, Except.ok.injEq, List.map_map] at h
    subst h
    obtain ⟨e, he, rfl⟩ := List.mem_map.mp hw
    obtain ⟨he, hfree⟩ := List.mem_filter.mp he
    exact ⟨e, he, rfl, by simpa [waitingField] using hfree, rfl⟩

end Fit

end ShapedReply
