import ShapedReply.Proofs.Schema.Descent
import ShapedReply.Proofs.Schema.Skeleton

/-!
# Error reports point at the offending value

A fit or a check that fails says where. Locations are put together step by step on the way out of
the recursion, and a union drops what its members said; still, **the location of every report leads
to a value that is there, and the schema that the same steps lead to is the one that refuses it**
(`reports_point_at_values`).

* `Value.at?`, `Schema.at?`: what a location leads to. In a schema the steps go through optional
  shapes and known names (`Schema.behind`).
* `Fit.Refuses`, `Check.Refuses`: a schema refuses a value by itself, whatever the parts of the
  value would answer.
* `Fit.Blames`, `Check.Blames`: what a report points at. A missing key is located where it should
  be, so what is there is the map around it.

The proofs are inductions over the value, with one over the schema inside, and one step of the
location for each step into the value (`Leads.cons`).
-/

namespace ShapedReply

open Outcome

/-! ## Where locations lead -/

namespace Value

/-- The part of a value one step further in. -/
def child? : Value → Step → Option Value
  | .array xs, .index (.ofNat n) => xs[n]?
  | .map es, .key name => Table.get? es name
  | _, _ => none

/-- The part of a value at a location. -/
def at? (v : Value) (location : Location) : Option Value :=
  location.foldlM child? v

/-- In a map with distinct keys a key leads to its value. -/
theorem child?_of_mem_fields {v : Value} (hv : v.HasDistinctKeys) {e : String × Value}
    (he : e ∈ v.fields) : v.child? (.key e.1) = some e.2 := by
  have hkeys : (Table.names v.fields).Nodup := of_decide_eq_true (everywhere_iff.mp hv).1
  cases v with
  | map es => exact Table.get?_of_mem hkeys he
  | _ => cases he

end Value

namespace Schema

/-- What stands behind optional shapes and known names. -/
def behind (resolve : Resolver) : Schema → Schema
  | .optional s => behind resolve s
  | .ref name => ((resolve name).map Definition.toSchema).getD (.ref name)
  | s => s

/-- The schema that is asked for one step further in. -/
def child? : Schema → Step → Option Schema
  | .array s, .index _ => some s
  | .map _ s, .key _ => some s
  | .object properties _ additional _, .key name => Check.fieldSchema properties additional name
  | _, _ => none

/-- The schema that is asked for at a location. -/
def at? (resolve : Resolver) (s : Schema) (location : Location) : Option Schema :=
  location.foldlM (fun node step => (node.child? step).map (behind resolve)) (s.behind resolve)

/-- Behind a known name stands what stands behind its definition. -/
theorem behind_ref {resolve : Resolver} {name : String} {d : Definition}
    (hd : resolve name = some d) : (ref name).behind resolve = d.toSchema.behind resolve := by
  rw [behind, hd]
  cases d <;> rfl

end Schema

variable {resolve : Resolver} {v x y : Value} {s t node : Schema} {location : Location}
  {step : Step}

/-- A location leads from a value and its schema to a part and the schema of the part. -/
structure Leads (resolve : Resolver) (v : Value) (s : Schema) (location : Location) (x : Value)
    (node : Schema) : Prop where
  /-- In the value. -/
  value : v.at? location = some x
  /-- In the schema. -/
  schema : s.at? resolve location = some node

/-- An empty path leads nowhere else. -/
theorem Leads.nil (hs : s.behind resolve = s) : Leads resolve v s [] v s :=
  ⟨rfl, congrArg some hs⟩

/-- A path leads on from where its first step leads to. -/
theorem Leads.cons (hy : v.child? step = some y) (ht : (s.behind resolve).child? step = some t)
    (h : Leads resolve y t location x node) : Leads resolve v s (step :: location) x node where
  value := by
    rw [Value.at?, List.foldlM_cons, hy]
    exact h.value
  schema := by
    rw [Schema.at?, List.foldlM_cons, ht]
    exact h.schema

/-- Only what stands behind a schema counts. -/
theorem Leads.of_behind (ht : t.behind resolve = s.behind resolve)
    (h : Leads resolve v s location x node) : Leads resolve v t location x node where
  value := h.value
  schema := by
    rw [Schema.at?, ht]
    exact h.schema

/-! ## Fitting -/

namespace Fit

/-- A schema refuses a value by itself: the value is a misfit whatever its parts would answer. A
union is asked about the whole value, and refuses it when it is a misfit for every member. -/
def Refuses (resolve : Resolver) (v : Value) : Schema → Prop
  | .anyOf members => ∀ s ∈ members, ∃ e, fit resolve v s = .error e ∧ e.isMisfit = true
  | s => ∀ items fields, fitNode resolve v items fields s = .error (misfit s v)

/-- A misfit points at a value that the schema at its place refuses. It names that schema and the
kind of that value. -/
inductive Blames (resolve : Resolver) (v : Value) (s : Schema) : FitError → Prop
  | refused {location : Location} {x : Value} {node : Schema} {expected : String}
      (leads : Leads resolve v s location x node) (refuses : Refuses resolve x node)
      (named : node.label? = some expected) : Blames resolve v s (.misfit expected x.kind location)

variable {e : FitError}

/-- A schema that refuses a value by itself points at the whole value, if it has a name to
report. -/
theorem Blames.here (hs : s.behind resolve = s) (h : Refuses resolve v s)
    (he : (misfit s v).isMisfit = true) : Blames resolve v s (misfit s v) := by
  unfold misfit at he ⊢
  split at he
  · next named => exact .refused (.nil hs) h named
  · cases he

/-- What points at a value further in points at it from further out, by one more step. -/
theorem Blames.under (hy : v.child? step = some y) (ht : (s.behind resolve).child? step = some t)
    (h : Blames resolve y t e) : Blames resolve v s (e.under step) := by
  cases h with
  | refused leads refuses named => exact .refused (.cons hy ht leads) refuses named

/-- Only what stands behind a schema counts for what is pointed at. -/
theorem Blames.of_behind (ht : t.behind resolve = s.behind resolve) (h : Blames resolve v s e) :
    Blames resolve v t e := by
  cases h with
  | refused leads refuses named => exact .refused (leads.of_behind ht) refuses named

/-- Seen from further out, an error is a misfit or not as before. -/
theorem isMisfit_under (e : FitError) (step : Step) : (e.under step).isMisfit = e.isMisfit := by
  cases e <;> rfl

/-- A scalar shape looks at no parts, and its misfits are its own. -/
theorem blames_of_isAtomic (hs : s.isAtomic = true) (h : fit resolve v s = .error e)
    (he : e.isMisfit = true) : Blames resolve v s e := by
  rw [fit_eq] at h
  cases s with
  | string =>
    rcases toText_eq_error (map_eq_error_iff.mp h) with rfl | ⟨rfl, -⟩
    · exact .here rfl (fun _ _ => h) he
    · cases he
  | int =>
    rcases toInt_eq_error (map_eq_error_iff.mp h) with rfl | ⟨word, digits, -, rfl, -⟩
    · exact .here rfl (fun _ _ => h) he
    · cases he
  | float =>
    obtain rfl := toDouble_eq_error (map_eq_error_iff.mp h)
    exact .here rfl (fun _ _ => h) he
  | bool =>
    obtain rfl := toBool_eq_error (map_eq_error_iff.mp h)
    exact .here rfl (fun _ _ => h) he
  | enum values aliases =>
    rcases toText_eq_error (map_eq_error_iff.mp h) with rfl | ⟨rfl, -⟩
    · exact .here rfl (fun _ _ => h) he
    · cases he
  | literal expected =>
    rcases toLiteral_eq_error h with rfl | ⟨rfl, -⟩ | ⟨-, hint⟩ | ⟨-, htext⟩
    · exact .here rfl (fun _ _ => h) he
    · cases he
    · rcases toInt_eq_error hint with rfl | ⟨word, digits, -, rfl, -⟩
      · exact .here rfl (fun _ _ => h) he
      · cases he
    · rcases toText_eq_error htext with rfl | ⟨rfl, -⟩
      · exact .here rfl (fun _ _ => h) he
      · cases he
  | null | array _ | map _ _ | object _ _ _ _ | ref _ | external _ | anyOf _ | optional _ =>
    cases hs

/-- The misfit of an array is its own, or that of an item one step further in. -/
theorem blames_of_array
    (hitems : ∀ x ∈ v.items, ∀ d, fit resolve x s = .error d → d.isMisfit = true →
      Blames resolve x s d)
    (h : fit resolve v (.array s) = .error e) (he : e.isMisfit = true) :
    Blames resolve v (.array s) e := by
  rw [fit_eq] at h
  cases v with
  | array xs =>
    obtain ⟨n, x, hx, d, hd, rfl⟩ := fitItems_eq_error (map_eq_error_iff.mp h)
    rw [isMisfit_under] at he
    rw [Nat.zero_add]
    exact (hitems x (List.mem_of_getElem? hx) d hd he).under hx rfl
  | _ =>
    cases h
    exact .here rfl (fun _ _ => rfl) he

/-- The misfit of a map is its own, or that of an entry one step further in. -/
theorem blames_of_map {key : Schema} (hv : v.HasDistinctKeys)
    (hfields : ∀ f ∈ v.fields, ∀ d, fit resolve f.2 s = .error d → d.isMisfit = true →
      Blames resolve f.2 s d)
    (h : fit resolve v (.map key s) = .error e) (he : e.isMisfit = true) :
    Blames resolve v (.map key s) e := by
  rw [fit_eq] at h
  cases v with
  | map es =>
    obtain ⟨f, hf, d, hd, rfl⟩ := fitEntries_eq_error (map_eq_error_iff.mp h)
    rw [isMisfit_under] at he
    exact (hfields f hf d hd he).under (Value.child?_of_mem_fields hv hf) rfl
  | _ =>
    cases h
    exact .here rfl (fun _ _ => rfl) he

/-- The misfit of an object is its own, or that of a field against what the object asks for
there. -/
theorem blames_of_object {properties : List (String × Schema)} {required : List String}
    {additional : Option Schema} {descriptions : List (String × Value)} (hv : v.HasDistinctKeys)
    (hnames : (Table.names properties).Nodup)
    (hfields : ∀ f ∈ v.fields, ∀ x ∈ properties.map (·.2) ++ additional.toList, ∀ d,
      fit resolve f.2 x = .error d → d.isMisfit = true → Blames resolve f.2 x d)
    (h : fit resolve v (.object properties required additional descriptions) = .error e)
    (he : e.isMisfit = true) :
    Blames resolve v (.object properties required additional descriptions) e := by
  rw [fit_eq, fitNode] at h
  rcases fitObject_eq_error h with ⟨hnone, rfl⟩ | ⟨f, hf, x, hasks, d, hd, rfl⟩
  · refine .here rfl (fun _ _ => ?_) he
    cases v with
    | map es => exact absurd rfl (hnone es)
    | _ => rfl
  · rw [isMisfit_under] at he
    exact (hfields f hf x hasks.mem d hd he).under (Value.child?_of_mem_fields hv hf)
      (fieldSchema_of_asksAt hnames hasks)

/-- **A misfit points at the value that is refused.** -/
theorem blames_of_fit (hresolve : resolve.HasDistinctNames) (v : Value) :
    v.HasDistinctKeys → ∀ s : Schema, s.HasDistinctNames → ∀ e : FitError,
      fit resolve v s = .error e → e.isMisfit = true → Blames resolve v s e := by
  induction v using Value.ind with
  | step v hitems hfields =>
  intro hv
  obtain ⟨-, hvitems, hvfields⟩ := Value.everywhere_iff.mp hv
  have hobject (properties required additional descriptions e)
      (hs : (Schema.object properties required additional descriptions).HasDistinctNames)
      (h : fit resolve v (.object properties required additional descriptions) = .error e)
      (he : e.isMisfit = true) :
      Blames resolve v (.object properties required additional descriptions) e :=
    blames_of_object hv hs.nodup
      (fun f hf x hx => hfields f hf (hvfields f hf) x (hs.of_mem_parts hx)) h he
  intro s
  induction s using Schema.ind with
  | step s ih =>
  intro hs e h he
  have hatom (hatomic : s.isAtomic = true) : Blames resolve v s e := blames_of_isAtomic hatomic h he
  cases s with
  | string | int | float | bool | enum _ _ | literal _ => exact hatom rfl
  | null =>
    rw [fit_eq, fitNode] at h
    split at h
    · cases h
    · next hnull =>
      cases h
      exact .here rfl (fun _ _ => by rw [fitNode, if_neg hnull]) he
  | array s =>
    have hs := hs.of_mem_parts (List.mem_singleton_self s)
    exact blames_of_array (fun x hx => hitems x hx (hvitems x hx) s hs) h he
  | map key s =>
    have hs := hs.of_mem_parts (List.mem_cons_of_mem key (List.mem_singleton_self s))
    exact blames_of_map hv (fun f hf => hfields f hf (hvfields f hf) s hs) h he
  | object properties required additional descriptions => exact hobject _ _ _ _ e hs h he
  | ref name =>
    rcases hd : resolve name with _ | d
    · rw [fit_eq, fitNode, hd] at h
      cases h
    · rw [fit_ref hd] at h
      have hdefinition := hresolve name d hd
      cases d with
      | enum values aliases => exact (blames_of_isAtomic rfl h he).of_behind (Schema.behind_ref hd)
      | object properties required descriptions =>
        exact (hobject _ _ _ _ e hdefinition h he).of_behind (Schema.behind_ref hd)
  | external name =>
    rw [fit_eq, fitNode] at h
    cases h
  | anyOf members =>
    rw [fit_eq, fitNode] at h
    -- A union reports a misfit only after all its members have, and then its own.
    rcases fitFirst_eq_error h with ⟨rfl, hall⟩ | ⟨x, -, -, hfinal⟩
    · refine .here rfl (fun x hx => ?_) he
      rw [fit_eq]
      exact hall x hx
    · rw [he] at hfinal
      cases hfinal
  | optional s =>
    rw [fit_eq, fitNode] at h
    split at h
    · cases h
    · rw [← fit_eq] at h
      have hinner : s ∈ (Schema.optional s).parts := List.mem_singleton_self s
      exact .of_behind (s := s) rfl (ih s hinner (hs.of_mem_parts hinner) e h he)

end Fit

/-! ## Checking -/

namespace Check

/-- A schema finds a disagreement with a value by itself, whatever the parts of the value would
answer. A union is asked about the whole value, and disagrees with it when no member accepts it. -/
def Refuses (resolve : Resolver) (v : Value) (cause : Disagreement) : Schema → Prop
  | .anyOf members =>
    (∃ name, (Schema.anyOf members).label? = some name ∧ cause = .mismatch name v.kind) ∧
      ∀ s ∈ members, ¬ Accepts resolve v s
  | s => ∀ items fields, checkNode resolve v items fields s = .error (.violation ⟨cause, []⟩)

/-- A violation points at a value that the schema at its place refuses, or, one step past a map, at
the key that the map lacks and the schema at its place requires. -/
inductive Blames (resolve : Resolver) (v : Value) (s : Schema) : Violation → Prop
  | refused {location : Location} {x : Value} {node : Schema} {cause : Disagreement}
      (leads : Leads resolve v s location x node) (refuses : Refuses resolve x cause node)
      (other : ∀ name, cause ≠ .missing name) : Blames resolve v s ⟨cause, location⟩
  | missing {location : Location} {es : Table Value} {properties : Table Schema}
      {required : List String} {additional : Option Schema} {descriptions : Table Value}
      {name : String}
      (leads : Leads resolve v s location (.map es)
        (.object properties required additional descriptions))
      (asked : name ∈ required) (lacks : name ∉ es.names) :
      Blames resolve v s ⟨.missing name, location ++ [.key name]⟩

variable {e : Violation}

/-- A report without a path is about the value itself. -/
theorem Blames.here {cause : Disagreement} (hs : s.behind resolve = s)
    (h : Refuses resolve v cause s) (hother : ∀ name, cause ≠ .missing name) :
    Blames resolve v s ⟨cause, []⟩ :=
  .refused (.nil hs) h hother

/-- What points at a value further in points at it from further out, by one more step. -/
theorem Blames.under (hy : v.child? step = some y) (ht : (s.behind resolve).child? step = some t)
    (h : Blames resolve y t e) : Blames resolve v s (e.under step) := by
  cases h with
  | refused leads refuses other => exact .refused (.cons hy ht leads) refuses other
  | missing leads asked lacks => exact .missing (.cons hy ht leads) asked lacks

/-- A report about a name is one about what stands behind it. -/
theorem Blames.of_behind (ht : t.behind resolve = s.behind resolve) (h : Blames resolve v s e) :
    Blames resolve v t e := by
  cases h with
  | refused leads refuses other => exact .refused (leads.of_behind ht) refuses other
  | missing leads asked lacks => exact .missing (leads.of_behind ht) asked lacks

/-- A report further out is one further in. -/
theorem exists_of_under {d : CheckError} (h : d.under step = .violation e) :
    ∃ report, d = .violation report ∧ report.under step = e := by
  cases d with
  | violation report => exact ⟨report, rfl, CheckError.violation.inj h⟩
  | integerUnwritable => cases h

/-- A kind that is asked for and not found has a name in its report. -/
theorem exists_of_mismatch {expected : Option String}
    (h : CheckError.violation e = mismatch expected v) :
    ∃ name, expected = some name ∧ e = ⟨.mismatch name v.kind, []⟩ := by
  cases expected with
  | some name => exact ⟨name, rfl, CheckError.violation.inj h⟩
  | none => cases h

/-- A kind that is asked for and not found points at the value. -/
theorem blames_of_expect {ok : Bool} {expected : Option String} (hs : s.behind resolve = s)
    (hunion : s.isUnion = false)
    (hnode : ∀ items fields, checkNode resolve v items fields s = expect ok expected v)
    (h : check resolve v s = .error (.violation e)) : Blames resolve v s e := by
  rw [check_eq, hnode] at h
  obtain ⟨name, -, rfl⟩ := exists_of_mismatch (expect_eq_error h)
  refine .here hs ?_ (by simp)
  cases s with
  | anyOf members => cases hunion
  | _ => exact fun items fields => (hnode items fields).trans h

/-- A report about an enum is about the value itself. -/
theorem blames_of_enum {values : List String} {aliases : List (String × String)}
    (h : check resolve v (.enum values aliases) = .error (.violation e)) :
    Blames resolve v (.enum values aliases) e := by
  rw [check_eq] at h
  cases v with
  | str word =>
    rw [checkNode, checkEnum] at h
    split at h
    · cases h
    · next hunknown =>
      cases h
      exact .here rfl (fun _ _ => by rw [checkNode, checkEnum, if_neg hunknown]) (by simp)
  | _ =>
    cases h
    exact .here rfl (fun _ _ => rfl) (by simp)

/-- The violation of an array is its own, or that of an item one step further in. -/
theorem blames_of_array
    (hitems : ∀ x ∈ v.items, ∀ d, check resolve x s = .error (.violation d) → Blames resolve x s d)
    (h : check resolve v (.array s) = .error (.violation e)) : Blames resolve v (.array s) e := by
  cases v with
  | array xs =>
    rw [check_eq] at h
    obtain ⟨n, x, hx, d, hd, hunder⟩ := checkItems_eq_error h
    obtain ⟨report, rfl, rfl⟩ := exists_of_under hunder
    rw [Nat.zero_add]
    exact (hitems x (List.mem_of_getElem? hx) report hd).under hx rfl
  | _ => exact blames_of_expect rfl rfl (fun _ _ => rfl) h

/-- The violation of a map is its own, or that of an entry one step further in. -/
theorem blames_of_map {key : Schema} (hv : v.HasDistinctKeys)
    (hfields : ∀ f ∈ v.fields, ∀ d, check resolve f.2 s = .error (.violation d) →
      Blames resolve f.2 s d)
    (h : check resolve v (.map key s) = .error (.violation e)) :
    Blames resolve v (.map key s) e := by
  cases v with
  | map es =>
    rw [check_eq] at h
    obtain ⟨f, hf, d, hd, hunder⟩ := checkEntries_eq_error h
    obtain ⟨report, rfl, rfl⟩ := exists_of_under hunder
    exact (hfields f hf report hd).under (Value.child?_of_mem_fields hv hf) rfl
  | _ => exact blames_of_expect rfl rfl (fun _ _ => rfl) h

/-- The violation of an object is its own, a missing key, or that of a field against its schema. -/
theorem blames_of_object {properties : List (String × Schema)} {required : List String}
    {additional : Option Schema} {descriptions : List (String × Value)} (hv : v.HasDistinctKeys)
    (hfields : ∀ f ∈ v.fields, ∀ t d, check resolve f.2 t = .error (.violation d) →
      Blames resolve f.2 t d)
    (h : check resolve v (.object properties required additional descriptions) =
      .error (.violation e)) :
    Blames resolve v (.object properties required additional descriptions) e := by
  have hfails := h
  rw [check_eq, checkNode] at hfails
  rcases checkObject_eq_error hfails with
    ⟨hnone, -⟩ | ⟨es, rfl, name, hasked, hlacks, heq⟩ | ⟨f, hf, t, ht, d, hd, hunder⟩
  · cases v with
    | map es => exact absurd rfl (hnone es)
    | _ => exact blames_of_expect rfl rfl (fun _ _ => show _ = expect false "object" _ from rfl) h
  · cases heq
    exact .missing (.nil rfl) hasked hlacks
  · obtain ⟨report, rfl, rfl⟩ := exists_of_under hunder
    exact (hfields f hf t report hd).under (Value.child?_of_mem_fields hv hf) ht

/-- **A violation points at the value that is refused, or at the place of a missing key.** -/
theorem blames_of_check (resolve : Resolver) (v : Value) :
    v.HasDistinctKeys → ∀ (s : Schema) (e : Violation), check resolve v s = .error (.violation e) →
      Blames resolve v s e := by
  induction v using Value.ind with
  | step v hitems hfields =>
  intro hv
  obtain ⟨-, hvitems, hvfields⟩ := Value.everywhere_iff.mp hv
  have hobject (properties required additional descriptions e)
      (h : check resolve v (.object properties required additional descriptions) =
        .error (.violation e)) :
      Blames resolve v (.object properties required additional descriptions) e :=
    blames_of_object hv (fun f hf => hfields f hf (hvfields f hf)) h
  intro s
  induction s using Schema.ind with
  | step s ih =>
  intro e h
  cases s with
  | string | int | float | bool | null | literal _ =>
    exact blames_of_expect rfl rfl (fun _ _ => by rw [checkNode]) h
  | array s => exact blames_of_array (fun x hx => hitems x hx (hvitems x hx) s) h
  | map key s => exact blames_of_map hv (fun f hf => hfields f hf (hvfields f hf) s) h
  | object properties required additional descriptions => exact hobject _ _ _ _ e h
  | enum values aliases => exact blames_of_enum h
  | ref name =>
    rcases hd : resolve name with _ | d
    · rw [check_eq, checkNode, hd] at h
      cases h
    · rw [check_ref hd] at h
      cases d with
      | enum values aliases => exact (blames_of_enum h).of_behind (Schema.behind_ref hd)
      | object properties required descriptions =>
        exact (hobject _ _ _ _ e h).of_behind (Schema.behind_ref hd)
  | external name =>
    rw [check_eq, checkNode] at h
    cases h
  | anyOf members =>
    rw [check_eq, checkNode] at h
    -- A union reports its own name, after all its members have reported something.
    rcases checkAny_eq_error h with ⟨heq, hall⟩ | ⟨x, -, -, hfinal⟩
    · obtain ⟨name, hname, rfl⟩ := exists_of_mismatch heq
      refine .here rfl ⟨⟨name, hname, rfl⟩, fun x hx haccepts => ?_⟩ (by simp)
      obtain ⟨report, hreport⟩ := hall x hx
      rw [Accepts, hreport] at haccepts
      cases haccepts
    · cases hfinal
  | optional s =>
    rw [check_eq, checkNode] at h
    split at h
    · cases h
    · rw [← check_eq] at h
      exact .of_behind (s := s) rfl (ih s (List.mem_singleton_self s) e h)

end Check

/-- **Error reports point at the offending value.** A misfit names the kind of a value that is there
and the schema that the same steps lead to, and that schema refuses the value by itself. A violation
is located at such a value too, or else it is a missing key, located one step past a map that is
there, at a key that the map lacks and the schema for the map requires. -/
theorem reports_point_at_values (hresolve : resolve.HasDistinctNames) (hs : s.HasDistinctNames)
    (hv : v.HasDistinctKeys) :
    (∀ expected actual location, fit resolve v s = .error (.misfit expected actual location) →
      Fit.Blames resolve v s (.misfit expected actual location)) ∧
    ∀ report, check resolve v s = .error (.violation report) → Check.Blames resolve v s report :=
  ⟨fun _ _ _ h => Fit.blames_of_fit hresolve v hv s hs _ h rfl,
    Check.blames_of_check resolve v hv s⟩

/-- A catalog of orders. -/
def orderResolver : Resolver
  | "Order" => some (.object [("lines", .array (.optional (.ref "Line"))),
      ("note", .anyOf [.int, .array .int])] ["lines"] [])
  | "Line" => some (.object [("size", .ref "Size"), ("count", .int)] ["size", "count"] [])
  | "Size" => some (.enum ["S", "L"] [])
  | _ => none

/-- The size of the second line is no text, and the first line has no count. -/
theorem reports_point_at_values_order :
    let s : Schema := .map .string (.ref "Order")
    let v : Value := .map [("my order", .map [("lines",
      .array [.map [("size", .str "L")], .map [("size", .null), ("count", .int 2)]])])]
    let e : FitError := .misfit "enum" .null
      [.key "my order", .key "lines", .index 1, .key "size"]
    let report : Violation :=
      ⟨.missing "count", [.key "my order", .key "lines", .index 0, .key "count"]⟩
    fit orderResolver v s = .error e ∧ Fit.Blames orderResolver v s e ∧
      e.message Location.root = "Expected enum, got null at $[\"my order\"].lines[1].size" ∧
      check orderResolver v s = .error (.violation report) ∧
      Check.Blames orderResolver v s report := by
  intro s v e report
  have hresolve : orderResolver.HasDistinctNames := by
    intro name d h
    unfold orderResolver at h
    split at h <;> cases h <;> rfl
  have hs : s.HasDistinctNames := rfl
  have hv : v.HasDistinctKeys := by cbv
  have hfit : fit orderResolver v s = .error e := by cbv
  have hcheck : check orderResolver v s = .error (.violation report) := by cbv
  obtain ⟨hmisfit, hviolation⟩ := reports_point_at_values hresolve hs hv
  exact ⟨hfit, hmisfit _ _ _ hfit, by decide +kernel, hcheck, hviolation _ hcheck⟩

end ShapedReply
