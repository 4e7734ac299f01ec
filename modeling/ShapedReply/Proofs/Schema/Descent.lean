import ShapedReply.Proofs.Recursion
import ShapedReply.Proofs.Schema.Conformance

/-!
# Fitting and checking end

A name stands for a definition, and definitions may refer to each other in cycles. So the schema
that a value is fitted to may grow on the way, and nothing in the schema alone bounds the descent.
This file writes fitting and checking as the recursions that they are, in which a name is followed
by a call for its definition (`fitting`, `checking`), and shows that **both end for every value,
whatever the definitions are** (`fitting_ends`, `checking_ends`).

The calls of both are the same (`descents`). What decreases is the value: a definition is never a
name again, so a call for a definition is followed by calls for parts of the value only
(`descents_end`). Where the value stays, the schema gets smaller.
-/

namespace ShapedReply

open Outcome

/-- The calls that the fit or the check of a value makes: for its parts, for the parts of its
schema, or for the definition of a name. -/
def descents (resolve : Resolver) : Value × Schema → List (Value × Schema)
  | (v, .optional s) => [(v, s)]
  | (v, .array s) => v.items.map fun x => (x, s)
  | (v, .map _ s) => v.fields.map fun e => (e.2, s)
  | (v, .object properties _ additional _) =>
    v.fields.flatMap fun e => (properties.map (·.2) ++ additional.toList).map fun s => (e.2, s)
  | (v, .ref name) => ((resolve name).map fun d => (v, d.toSchema)).toList
  | (v, .anyOf members) => members.map fun s => (v, s)
  | _ => []

variable {resolve : Resolver}

/-- A call for an object makes calls for the fields of the value, with the schemas of the object. -/
theorem mem_descents_object {v : Value} {properties : List (String × Schema)}
    {required : List String} {additional : Option Schema} {descriptions : List (String × Value)}
    {e : String × Value} {s : Schema} (he : e ∈ v.fields)
    (hs : s ∈ properties.map (·.2) ++ additional.toList) :
    (e.2, s) ∈ descents resolve (v, .object properties required additional descriptions) :=
  List.mem_flatMap.mpr ⟨e, he, List.mem_map.mpr ⟨s, hs, rfl⟩⟩

/-- A part that asks for its answers. -/
def asking {β : Type} (answer : Value × Schema → β) (v : Value) : Part (Schema → β) :=
  ⟨v, fun s => answer (v, s)⟩

/-- A field that asks for its answers. -/
def askingField {β : Type} (answer : Value × Schema → β) (e : String × Value) :
    String × Part (Schema → β) :=
  (e.1, asking answer e.2)

/-! ## The descent ends -/

/-- **A recursion that descends into values and schemas ends**, whatever the definitions are. -/
theorem descents_end {β : Type} {R : Recursion (Value × Schema) β}
    (hcalls : R.calls = descents resolve) (v : Value) : ∀ s : Schema, ∃ b, R.Ends (v, s) b := by
  induction v using Value.ind with
  | step v hitems hfields =>
  have hends (s : Schema) (h : ∀ y ∈ descents resolve (v, s), ∃ b, R.Ends y b) :
      ∃ b, R.Ends (v, s) b := by
    apply R.exists_ends
    rw [hcalls]
    exact h
  have hobject (properties : List (String × Schema)) (required : List String)
      (additional : Option Schema) (descriptions : List (String × Value)) :
      ∃ b, R.Ends (v, .object properties required additional descriptions) b := by
    apply hends
    intro y hy
    obtain ⟨e, he, hy⟩ := List.mem_flatMap.mp hy
    obtain ⟨s, -, rfl⟩ := List.mem_map.mp hy
    exact hfields e he s
  -- A definition is an enum, which makes no calls, or an object: it never leads to a name again
  -- without a step into the value.
  have hdefinition (d : Definition) : ∃ b, R.Ends (v, d.toSchema) b := by
    cases d with
    | enum values aliases => exact hends _ fun y hy => absurd hy List.not_mem_nil
    | object properties required descriptions => exact hobject properties required none descriptions
  intro s
  induction s using Schema.ind with
  | step s ih =>
  cases s with
  | object properties required additional descriptions =>
    exact hobject properties required additional descriptions
  | optional s =>
    apply hends
    intro y hy
    obtain rfl := List.mem_singleton.mp hy
    exact ih s (by simp [Schema.parts])
  | array s =>
    apply hends
    intro y hy
    obtain ⟨x, hx, rfl⟩ := List.mem_map.mp hy
    exact hitems x hx s
  | map key s =>
    apply hends
    intro y hy
    obtain ⟨e, he, rfl⟩ := List.mem_map.mp hy
    exact hfields e he s
  | ref name =>
    apply hends
    intro y hy
    obtain ⟨d, -, rfl⟩ := Option.map_eq_some_iff.mp (Option.mem_toList.mp hy)
    exact hdefinition d
  | anyOf members =>
    apply hends
    intro y hy
    obtain ⟨x, hx, rfl⟩ := List.mem_map.mp hy
    exact ih x hx
  | string | int | float | bool | null | enum _ _ | external _ | literal _ =>
    exact hends _ fun y hy => absurd hy List.not_mem_nil

/-! ## Fitting -/

namespace Fit

variable {f g : Value × Schema → Result Value} {s : Schema}

/-- The first member that fits, given what the members answer. -/
def firstFit (answer : Schema → Result Value) (failure : FitError) : List Schema → Result Value
  | [] => .error failure
  | s :: rest => match answer s with
    | .ok w => .ok w
    | .error e => if e.isMisfit then firstFit answer failure rest else .error e

/-- One step of fitting, given the answers to other calls. -/
def fitStep (resolve : Resolver) (answer : Value × Schema → Result Value) :
    Value × Schema → Result Value
  | (v, .optional s) => if v = .null then .ok .null else answer (v, s)
  | (v, .ref name) => match resolve name with
    | some d => answer (v, d.toSchema)
    | none => .ok v
  | (v, .anyOf members) =>
    firstFit (fun s => answer (v, s)) (misfit (.anyOf members) v) members
  | (v, s) => fitNode resolve v (v.items.map (asking answer)) (v.fields.map (askingField answer)) s

/-- Fitting items depends on what is made of each item. -/
theorem fitItems_congr (xs : List Value) (h : ∀ x ∈ xs, f (x, s) = g (x, s)) (i : Nat) :
    fitItems s i (xs.map (asking f)) = fitItems s i (xs.map (asking g)) := by
  induction xs generalizing i with
  | nil => rfl
  | cons x xs ih =>
    rw [List.forall_mem_cons] at h
    have hx : (asking f x).answer s = (asking g x).answer s := h.1
    rw [List.map_cons, List.map_cons, fitItems, fitItems, hx, ih h.2]

/-- Fitting entries depends on what is made of each value. -/
theorem fitEntries_congr (es : List (String × Value)) (h : ∀ e ∈ es, f (e.2, s) = g (e.2, s)) :
    fitEntries s (es.map (askingField f)) = fitEntries s (es.map (askingField g)) := by
  induction es with
  | nil => rfl
  | cons e es ih =>
    rw [List.forall_mem_cons] at h
    have he : (asking f e.2).answer s = (asking g e.2).answer s := h.1
    rw [List.map_cons, List.map_cons, askingField, askingField, fitEntries, fitEntries, he, ih h.2]

/-- Fitting declared fields depends on what the properties make of the values. -/
theorem fitDeclared_congr (es : List (String × Value)) (properties : List (String × Schema))
    (h : ∀ e ∈ es, ∀ p ∈ properties, f (e.2, p.2) = g (e.2, p.2)) :
    fitDeclared (es.map (askingField f)) properties =
      fitDeclared (es.map (askingField g)) properties := by
  induction properties with
  | nil => rfl
  | cons p properties ih =>
    obtain ⟨name, s⟩ := p
    have hlookup (answer : Value × Schema → Result Value) :
        (es.map (askingField answer)).lookup name = (Table.get? es name).map (asking answer) :=
      Table.get?_mapEntries (asking answer) es name
    have hrest := ih fun e he p hp => h e he p (List.mem_cons_of_mem _ hp)
    rw [fitDeclared, fitDeclared, hlookup, hlookup, hrest]
    rcases hfound : Table.get? es name with _ | x
    · rfl
    · have hx : (asking f x).answer s = (asking g x).answer s :=
        h _ (Table.mem_of_get? hfound) _ List.mem_cons_self
      simp only [Option.map_some, hx]

/-- Fitting an object depends on what the schemas in it make of the values. -/
theorem fitObject_congr {v : Value} {properties : List (String × Schema)}
    {additional : Option Schema}
    (h : ∀ e ∈ v.fields, ∀ s ∈ properties.map (·.2) ++ additional.toList, f (e.2, s) = g (e.2, s)) :
    fitObject properties additional v (v.fields.map (askingField f)) =
      fitObject properties additional v (v.fields.map (askingField g)) := by
  cases v with
  | map es =>
    have hdeclared := fitDeclared_congr es properties fun e he p hp =>
      h e he p.2 (List.mem_append_left _ (List.mem_map_of_mem hp))
    have hothers : fitUndeclared additional
          ((es.map (askingField f)).filter fun e => !Table.has properties e.1) =
        fitUndeclared additional
          ((es.map (askingField g)).filter fun e => !Table.has properties e.1) := by
      rw [List.filter_map, List.filter_map]
      cases additional with
      | some s =>
        refine fitEntries_congr _ fun e he => h e (List.mem_filter.mp he).1 s ?_
        exact List.mem_append_right _ (by simp)
      | none =>
        rw [fitUndeclared, fitUndeclared, List.map_map, List.map_map]
        rfl
    rw [Value.fields, fitObject, fitObject, hdeclared, hothers]
  | _ => rfl

/-- The first fit depends on what the members make of the value. -/
theorem firstFit_congr {k l : Schema → Result Value} {failure : FitError} {members : List Schema}
    (h : ∀ s ∈ members, k s = l s) : firstFit k failure members = firstFit l failure members := by
  induction members with
  | nil => rfl
  | cons s members ih =>
    rw [List.forall_mem_cons] at h
    rw [firstFit, firstFit, h.1, ih h.2]

/-- One step of fitting depends on what it descends to. -/
theorem fitStep_congr {x : Value × Schema} (h : ∀ y ∈ descents resolve x, f y = g y) :
    fitStep resolve f x = fitStep resolve g x := by
  obtain ⟨v, s⟩ := x
  cases s with
  | optional s => rw [fitStep, fitStep, h (v, s) List.mem_cons_self]
  | ref name =>
    rw [fitStep, fitStep]
    rcases hd : resolve name with _ | d
    · rfl
    · exact h (v, d.toSchema) (by simp [descents, hd])
  | anyOf members =>
    rw [fitStep, fitStep]
    exact firstFit_congr fun s hs => h (v, s) (List.mem_map_of_mem hs)
  | array s =>
    cases v with
    | array xs =>
      have hitems := fitItems_congr xs (fun x hx => h (x, s) (List.mem_map_of_mem hx)) 0
      show (fitItems s 0 (xs.map (asking f))).map Value.array =
        (fitItems s 0 (xs.map (asking g))).map .array
      rw [hitems]
    | _ => rfl
  | map key s =>
    cases v with
    | map es =>
      have hentries := fitEntries_congr es fun e he =>
        h (e.2, s) (List.mem_map.mpr ⟨e, he, rfl⟩)
      show (fitEntries s (es.map (askingField f))).map Value.map =
        (fitEntries s (es.map (askingField g))).map .map
      rw [hentries]
    | _ => rfl
  | object properties required additional descriptions =>
    exact fitObject_congr fun e he s hs => h (e.2, s) (mem_descents_object he hs)
  | _ => rfl

/-- Fitting as a recursion. -/
def fitting (resolve : Resolver) : Recursion (Value × Schema) (Result Value) where
  calls := descents resolve
  body := fitStep resolve
  fallback := .ok .null
  body_congr := fitStep_congr

/-- Fitting a union is the first fit among its members. -/
theorem fitFirst_eq_firstFit {v : Value} {failure : FitError} (members : List Schema) :
    fitFirst resolve v (v.items.map (waiting resolve)) (v.fields.map (waitingField resolve)) failure
      members = firstFit (fit resolve v) failure members := by
  induction members with
  | nil => rfl
  | cons s members ih =>
    rw [fitFirst, firstFit, ← fit_eq]
    rcases fit resolve v s with e | w
    · exact congrArg (fun w => if e.isMisfit then w else .error e) ih
    · rfl

/-- Fitting satisfies the equation of its recursion. -/
theorem fit_eq_fitStep (x : Value × Schema) :
    fit resolve x.1 x.2 = fitStep resolve (fun y => fit resolve y.1 y.2) x := by
  obtain ⟨v, s⟩ := x
  cases s with
  | optional s => rw [fitStep, fit_eq, fitNode, ← fit_eq]
  | ref name =>
    rw [fitStep]
    rcases hd : resolve name with _ | d
    · rw [fit_eq, fitNode, hd]
    · exact fit_ref hd
  | anyOf members =>
    rw [fitStep, fit_eq, fitNode]
    exact fitFirst_eq_firstFit members
  | _ => exact fit_eq v _

/-- **Fitting ends**, for every value and every schema, whatever the definitions are. -/
theorem fitting_ends (resolve : Resolver) (v : Value) (s : Schema) :
    (fitting resolve).Ends (v, s) (fit resolve v s) := by
  obtain ⟨b, hb⟩ := descents_end (R := fitting resolve) rfl v s
  obtain rfl := hb.eq_of_fixed fit_eq_fitStep
  exact hb

end Fit

/-! ## Checking -/

namespace Check

variable {f g : Value × Schema → Result} {s : Schema}

/-- Whether a member finds nothing, given what the members answer. -/
def anyCheck (answer : Schema → Result) (failure : Result) : List Schema → Result
  | [] => failure
  | s :: rest => match answer s with
    | .ok () => .ok ()
    | .error e => if e.isViolation then anyCheck answer failure rest else .error e

/-- One step of checking, given the answers to other calls. -/
def checkStep (resolve : Resolver) (answer : Value × Schema → Result) : Value × Schema → Result
  | (v, .optional s) => if v = .null then .ok () else answer (v, s)
  | (v, .ref name) => match resolve name with
    | some d => answer (v, d.toSchema)
    | none => .ok ()
  | (v, .anyOf members) =>
    anyCheck (fun s => answer (v, s)) (expect false (Schema.anyOf members).label? v) members
  | (v, s) =>
    checkNode resolve v (v.items.map (asking answer)) (v.fields.map (askingField answer)) s

/-- Checking items depends on the check of each item. -/
theorem checkItems_congr (xs : List Value) (h : ∀ x ∈ xs, f (x, s) = g (x, s)) (i : Nat) :
    checkItems s i (xs.map (asking f)) = checkItems s i (xs.map (asking g)) := by
  induction xs generalizing i with
  | nil => rfl
  | cons x xs ih =>
    rw [List.forall_mem_cons] at h
    have hx : (asking f x).answer s = (asking g x).answer s := h.1
    rw [List.map_cons, List.map_cons, checkItems, checkItems, hx, ih h.2]

/-- Checking entries depends on the check of each value. -/
theorem checkEntries_congr (es : List (String × Value)) (h : ∀ e ∈ es, f (e.2, s) = g (e.2, s)) :
    checkEntries s (es.map (askingField f)) = checkEntries s (es.map (askingField g)) := by
  induction es with
  | nil => rfl
  | cons e es ih =>
    rw [List.forall_mem_cons] at h
    have he : (asking f e.2).answer s = (asking g e.2).answer s := h.1
    rw [List.map_cons, List.map_cons, askingField, askingField, checkEntries, checkEntries, he,
      ih h.2]

/-- The demand for required keys does not depend on the values. -/
theorem checkRequired_askingField (es : List (String × Value)) (required : List String) :
    checkRequired (es.map (askingField f)) required =
      checkRequired (es.map (askingField g)) required := by
  have hhas (answer : Value × Schema → Result) (name : String) :
      Table.has (es.map (askingField answer)) name = Table.has es name :=
    Table.has_mapEntries (asking answer) es name
  induction required with
  | nil => rfl
  | cons name required ih => rw [checkRequired, checkRequired, hhas, hhas, ih]

/-- Checking fields depends on the check of each value by the schema that it belongs to. -/
theorem checkFields_congr (properties : List (String × Schema)) (additional : Option Schema)
    (es : List (String × Value))
    (h : ∀ e ∈ es, ∀ s, fieldSchema properties additional e.1 = some s → f (e.2, s) = g (e.2, s)) :
    checkFields properties additional (es.map (askingField f)) =
      checkFields properties additional (es.map (askingField g)) := by
  induction es with
  | nil => rfl
  | cons e es ih =>
    rw [List.forall_mem_cons] at h
    simp only [List.map_cons, checkFields, askingField]
    rw [ih h.2]
    rcases hfound : properties.lookup e.1 with _ | s
    · cases additional with
      | none => rfl
      | some s =>
        have hs : (asking f e.2).answer s = (asking g e.2).answer s :=
          h.1 s (by rw [fieldSchema, hfound, Option.none_or])
        simp only [hs]
    · have hs : (asking f e.2).answer s = (asking g e.2).answer s :=
        h.1 s (by rw [fieldSchema, hfound, Option.some_or])
      simp only [hs]

/-- Checking a choice depends on the checks of its members. -/
theorem anyCheck_congr {k l : Schema → Result} {failure : Result} {members : List Schema}
    (h : ∀ s ∈ members, k s = l s) : anyCheck k failure members = anyCheck l failure members := by
  induction members with
  | nil => rfl
  | cons s members ih =>
    rw [List.forall_mem_cons] at h
    rw [anyCheck, anyCheck, h.1, ih h.2]

/-- One step of checking depends on what it descends to. -/
theorem checkStep_congr {x : Value × Schema} (h : ∀ y ∈ descents resolve x, f y = g y) :
    checkStep resolve f x = checkStep resolve g x := by
  obtain ⟨v, s⟩ := x
  cases s with
  | optional s => rw [checkStep, checkStep, h (v, s) List.mem_cons_self]
  | ref name =>
    rw [checkStep, checkStep]
    rcases hd : resolve name with _ | d
    · rfl
    · exact h (v, d.toSchema) (by simp [descents, hd])
  | anyOf members =>
    rw [checkStep, checkStep]
    exact anyCheck_congr fun s hs => h (v, s) (List.mem_map_of_mem hs)
  | array s =>
    cases v with
    | array xs => exact checkItems_congr xs (fun x hx => h (x, s) (List.mem_map_of_mem hx)) 0
    | _ => rfl
  | map key s =>
    cases v with
    | map es => exact checkEntries_congr es fun e he => h (e.2, s) (List.mem_map.mpr ⟨e, he, rfl⟩)
    | _ => rfl
  | object properties required additional descriptions =>
    cases v with
    | map es =>
      have hfields : checkFields properties additional (es.map (askingField f)) =
          checkFields properties additional (es.map (askingField g)) := by
        refine checkFields_congr properties additional es fun e he s hs => ?_
        have hpart : s ∈ (Schema.object properties required additional descriptions).parts :=
          mem_parts_of_fieldSchema hs
        exact h (e.2, s) (mem_descents_object he hpart)
      show (do
          checkRequired (es.map (askingField f)) required
          checkFields properties additional (es.map (askingField f))) = do
        checkRequired (es.map (askingField g)) required
        checkFields properties additional (es.map (askingField g))
      rw [hfields, checkRequired_askingField es required]
    | _ => rfl
  | _ => rfl

/-- Checking as a recursion. -/
def checking (resolve : Resolver) : Recursion (Value × Schema) Result where
  calls := descents resolve
  body := checkStep resolve
  fallback := .ok ()
  body_congr := checkStep_congr

/-- Checking a union is checking a choice between its members. -/
theorem checkAny_eq_anyCheck {v : Value} {name : Option String} (members : List Schema) :
    checkAny resolve v (v.items.map (waiting resolve)) (v.fields.map (waitingField resolve)) name
      members = anyCheck (check resolve v) (expect false name v) members := by
  induction members with
  | nil => rfl
  | cons s members ih =>
    rw [checkAny, anyCheck, ← check_eq]
    rcases check resolve v s with e | w
    · exact congrArg (fun r => if e.isViolation then r else .error e) ih
    · rfl

/-- A name that is known stands for its definition. -/
theorem check_ref {v : Value} {name : String} {d : Definition} (hd : resolve name = some d) :
    check resolve v (.ref name) = check resolve v d.toSchema := by
  rw [check_eq, check_eq, checkNode, hd]
  cases d <;> rfl

/-- Checking satisfies the equation of its recursion. -/
theorem check_eq_checkStep (x : Value × Schema) :
    check resolve x.1 x.2 = checkStep resolve (fun y => check resolve y.1 y.2) x := by
  obtain ⟨v, s⟩ := x
  cases s with
  | optional s => rw [checkStep, check_eq, checkNode, ← check_eq]
  | ref name =>
    rw [checkStep]
    rcases hd : resolve name with _ | d
    · rw [check_eq, checkNode, hd]
    · exact check_ref hd
  | anyOf members =>
    rw [checkStep, check_eq, checkNode]
    exact checkAny_eq_anyCheck members
  | _ => exact check_eq v _

/-- **Checking ends**, for every value and every schema, whatever the definitions are. -/
theorem checking_ends (resolve : Resolver) (v : Value) (s : Schema) :
    (checking resolve).Ends (v, s) (check resolve v s) := by
  obtain ⟨b, hb⟩ := descents_end (R := checking resolve) rfl v s
  obtain rfl := hb.eq_of_fixed check_eq_checkStep
  exact hb

end Check

end ShapedReply
