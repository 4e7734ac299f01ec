import Mathlib
import ShapedReply.Proofs.Schema.Walk

/-!
# A fitted value has the kinds that its schema asks for

Fitting and checking decide by two separate case analyses what belongs to a schema. This file shows
that they agree on kinds: **after a fit, the check never finds a value of the wrong kind**
(`check_of_fit`). What it may still find is a missing key or a string that is not among the values
of an enum, since a fit adds no keys and leaves unknown enum members as they are.

Unions are left out, because a union takes the first member that a value fits, and the fit of a
member may leave a key missing there; so are literals that no text spells. Both conditions are asked
everywhere in the schema and in what the catalog knows.

The proof is one step for each kind of schema and one induction: `agreesInKind_fields` and
`agreesInKind_items` carry the agreement of the parts to their container, `agreesInKind_node` takes
the step at a node, and `Value.ind` runs it over the whole value.
-/

namespace ShapedReply

/-! ## Conditions on schemas -/

namespace Schema

/-- Whether a schema is a union. -/
def isUnion : Schema → Bool
  | .anyOf _ => true
  | _ => false

/-- Whether a schema is no literal, or the literal of a string, a whole number or a truth value. -/
def hasSpelledLiteral : Schema → Bool
  | .literal (.str _) | .literal (.int _) | .literal (.bool _) => true
  | .literal _ => false
  | _ => true

/-- Every literal in a schema is a string, a whole number or a truth value. -/
def HasSpelledLiterals (s : Schema) : Prop :=
  s.everywhere hasSpelledLiteral = true

/-- The parts of a schema with spelled literals have spelled literals. -/
theorem HasSpelledLiterals.of_mem_parts {s x : Schema} (h : s.HasSpelledLiterals)
    (hx : x ∈ s.parts) : x.HasSpelledLiterals :=
  (everywhere_iff.mp h).2 x hx

/-- Whether the properties of an object schema form a table, in which no name stands twice. -/
def hasDistinctNames : Schema → Bool
  | .object properties _ _ _ => decide (Table.names properties).Nodup
  | _ => true

/-- A schema without unions and with spelled literals only, at every depth. The properties of an
object schema are a table, so their names do not repeat. -/
def IsDirect (s : Schema) : Prop :=
  s.everywhere (fun n => !n.isUnion && n.hasSpelledLiteral && n.hasDistinctNames) = true

/-- What a direct object schema consists of. -/
theorem IsDirect.object {properties : List (String × Schema)} {required : List String}
    {additional : Option Schema} {descriptions : List (String × Value)}
    (h : IsDirect (.object properties required additional descriptions)) :
    (Table.names properties).Nodup ∧ (∀ e ∈ properties, IsDirect e.2) ∧
      ∀ s, additional = some s → IsDirect s := by
  unfold IsDirect everywhere at h
  simp only [Bool.and_eq_true] at h
  obtain ⟨⟨⟨-, hnames⟩, hproperties⟩, hadditional⟩ := h
  refine ⟨by simpa [hasDistinctNames] using hnames, everywhere_of_mem hproperties, ?_⟩
  rintro s rfl
  exact hadditional

/-- The items of a direct array schema are direct. -/
theorem IsDirect.array {s : Schema} (h : IsDirect (.array s)) : IsDirect s := by
  simp only [IsDirect, everywhere, Bool.and_eq_true] at h
  exact h.2

/-- The values of a direct map schema are direct. -/
theorem IsDirect.map {key s : Schema} (h : IsDirect (.map key s)) : IsDirect s := by
  simp only [IsDirect, everywhere, Bool.and_eq_true] at h
  exact h.2

/-- What a direct optional schema makes optional is direct. -/
theorem IsDirect.optional {s : Schema} (h : IsDirect (.optional s)) : IsDirect s := by
  simp only [IsDirect, everywhere, Bool.and_eq_true] at h
  exact h.2

end Schema

/-- A resolver that knows direct definitions only. -/
def Resolver.IsDirect (resolve : Resolver) : Prop :=
  ∀ name d, resolve name = some d → d.toSchema.IsDirect

/-! ## Results without a wrong kind -/

namespace Check

/-- A check that finds no value of the wrong kind: it succeeds, or reports a missing key or an
unknown enum member. -/
def AgreesInKind (r : Result) : Prop :=
  ∀ e, r = .error e → ∃ report : Violation, e = .violation report ∧
    (report.cause.category = "missing_field" ∨ report.cause.category = "enum_value")

/-- A success agrees in kind. -/
theorem agreesInKind_ok : AgreesInKind (.ok ()) := by
  intro e h
  cases h

/-- A chain of checks agrees in kind when its links do. -/
theorem AgreesInKind.bind {r q : Result} (hr : AgreesInKind r) (hq : AgreesInKind q) :
    AgreesInKind (r >>= fun _ => q) := by
  cases r with
  | ok u => exact hq
  | error e => exact hr

/-- Where a disagreement is reported from makes no difference to its cause. -/
theorem AgreesInKind.under {r : Result} (hr : AgreesInKind r) (step : Step) :
    AgreesInKind (under step r) := by
  cases r with
  | ok u => exact agreesInKind_ok
  | error e =>
    rintro _ ⟨⟩
    obtain ⟨report, rfl, hcategory⟩ := hr e rfl
    exact ⟨report.under step, rfl, hcategory⟩

/-- A demand that is met agrees in kind. -/
theorem agreesInKind_expect {ok : Bool} (h : ok = true) (expected : Option String) (v : Value) :
    AgreesInKind (expect ok expected v) := by
  subst h
  exact agreesInKind_ok

/-- A string agrees in kind with every enum. -/
theorem agreesInKind_enum (values : List String) (s : String) :
    AgreesInKind (checkEnum values (.str s)) := by
  simp only [checkEnum]
  split
  · exact agreesInKind_ok
  · rintro _ ⟨⟩
    exact ⟨_, rfl, .inr rfl⟩

variable {resolve : Resolver}

/-- A value on its way through a check. -/
def waiting (resolve : Resolver) (v : Value) : Waiting := ⟨v, check resolve v⟩

/-- A field on its way through a check. -/
def waitingField (resolve : Resolver) (e : String × Value) : String × Waiting :=
  (e.1, waiting resolve e.2)

/-- Checking asks the node for its schema and hands it the same check at its parts. -/
theorem check_eq (v : Value) (s : Schema) :
    check resolve v s = checkNode resolve v (v.items.map (waiting resolve))
      (v.fields.map (waitingField resolve)) s := by
  unfold check
  rw [Value.fold_eq]
  rfl

/-- An array agrees in kind when its items do. -/
theorem agreesInKind_items {s : Schema} {ws : List Value}
    (h : ∀ w ∈ ws, AgreesInKind (check resolve w s)) (i : Nat) :
    AgreesInKind (checkItems s i (ws.map (waiting resolve))) := by
  induction ws generalizing i with
  | nil => exact agreesInKind_ok
  | cons w ws ih =>
    rw [List.forall_mem_cons] at h
    exact (h.1.under (.index i)).bind (ih h.2 (i + 1))

/-- A map agrees in kind when its values do. -/
theorem agreesInKind_entries {s : Schema} {ws : List (String × Value)}
    (h : ∀ w ∈ ws, AgreesInKind (check resolve w.2 s)) :
    AgreesInKind (checkEntries s (ws.map (waitingField resolve))) := by
  induction ws with
  | nil => exact agreesInKind_ok
  | cons w ws ih =>
    rw [List.forall_mem_cons] at h
    exact (h.1.under (.key w.1)).bind (ih h.2)

/-- A map agrees in kind with an object schema when each field does with the schema that it belongs
to. -/
theorem agreesInKind_fields {properties : List (String × Schema)} {additional : Option Schema}
    {ws : List (String × Value)}
    (declared : ∀ w ∈ ws, ∀ s, properties.lookup w.1 = some s → AgreesInKind (check resolve w.2 s))
    (undeclared : ∀ w ∈ ws, ∀ s, properties.lookup w.1 = none → additional = some s →
      AgreesInKind (check resolve w.2 s)) :
    AgreesInKind (checkFields properties additional (ws.map (waitingField resolve))) := by
  induction ws with
  | nil => exact agreesInKind_ok
  | cons w ws ih =>
    rw [List.forall_mem_cons] at declared undeclared
    have rest := ih declared.2 undeclared.2
    simp only [List.map_cons, waitingField, checkFields]
    rcases hfound : properties.lookup w.1 with _ | s
    · cases additional with
      | none => exact agreesInKind_ok.bind rest
      | some s => exact ((undeclared.1 s hfound rfl).under (.key w.1)).bind rest
    · exact ((declared.1 s hfound).under (.key w.1)).bind rest

/-- The search for required keys reports missing ones only. -/
theorem agreesInKind_required (fields : List (String × Waiting)) (required : List String) :
    AgreesInKind (checkRequired fields required) := by
  induction required with
  | nil => exact agreesInKind_ok
  | cons name required ih =>
    unfold checkRequired
    split
    · exact ih
    · rintro _ ⟨⟩
      exact ⟨_, rfl, .inl rfl⟩

end Check

open Check Fit Outcome

/-! ## Scalars -/

section scalars

variable {resolve : Resolver} {v w : Value}

/-- What fits an enum is a string. -/
theorem exists_str_of_toEnum {values : List String} {aliases : List (String × String)}
    (h : toEnum values aliases v = .ok w) : ∃ t, w = .str t := by
  obtain ⟨t, -, rfl⟩ := map_eq_ok_iff.mp h
  exact ⟨_, rfl⟩

/-- What fits a spelled literal is the literal. -/
theorem eq_of_toLiteral {expected : Scalar}
    (hl : (Schema.literal expected).hasSpelledLiteral = true)
    (h : toLiteral expected v = .ok w) : w = expected.toValue := by
  cases expected with
  | null => cases hl
  | float x => cases hl
  | bool b =>
    obtain ⟨found, -, hw⟩ := bind_eq_ok_iff.mp h
    split at hw
    · cases hw
      rfl
    · cases hw
  | int n =>
    obtain ⟨found, -, hw⟩ := bind_eq_ok_iff.mp h
    split at hw
    · cases hw
      rfl
    · cases hw
  | str t =>
    obtain ⟨found, -, hw⟩ := bind_eq_ok_iff.mp h
    split at hw
    · cases hw
      rfl
    · cases hw

/-- A literal is itself. -/
theorem isLiteral_toValue {expected : Scalar}
    (hl : (Schema.literal expected).hasSpelledLiteral = true) :
    isLiteral expected expected.toValue = true := by
  cases expected with
  | null => cases hl
  | float x => cases hl
  | bool b => simp [isLiteral, Scalar.toValue]
  | int n => simp [isLiteral, Scalar.toValue]
  | str t => simp [isLiteral, Scalar.toValue]

end scalars

/-! ## Containers and nodes -/

/-- What is asked of the parts of a value: a fit of them agrees in kind with its schema. -/
def FitsInKind (resolve : Resolver) (v : Value) : Prop :=
  ∀ s w, s.IsDirect → fit resolve v s = .ok w → AgreesInKind (check resolve w s)

/-- A fit of a map to an object schema agrees in kind when the fits of its fields do. -/
theorem agreesInKind_object {resolve : Resolver} {v w : Value}
    {properties : List (String × Schema)} {additional : Option Schema} (required : List String)
    (hnames : (Table.names properties).Nodup) (hdeclared : ∀ e ∈ properties, e.2.IsDirect)
    (hadditional : ∀ s, additional = some s → s.IsDirect)
    (parts : ∀ e ∈ v.fields, FitsInKind resolve e.2)
    (h : fitObject properties additional v (v.fields.map (Fit.waitingField resolve)) = .ok w) :
    AgreesInKind (checkObject properties required additional w
      (w.fields.map (Check.waitingField resolve))) := by
  unfold fitObject at h
  split at h
  · obtain ⟨ds, hds, h⟩ := bind_eq_ok_iff.mp h
    obtain ⟨us, hus, h⟩ := bind_eq_ok_iff.mp h
    cases h
    refine (agreesInKind_required _ required).bind (agreesInKind_fields ?_ ?_)
    · intro f hf s hs
      rcases List.mem_append.mp hf with hf | hf
      · obtain ⟨p, hp, e, he, hpf, -, hfit⟩ := mem_fitDeclared hds f hf
        have hlookup := Table.get?_of_mem hnames hp
        rw [hpf, hs] at hlookup
        cases hlookup
        exact parts e he _ _ (hdeclared p hp) hfit
      · obtain ⟨e, he, -, hfree, -⟩ := mem_fitUndeclared hus f hf
        simp [Table.has, Table.get?, hs] at hfree
    · rintro f hf s hs rfl
      rcases List.mem_append.mp hf with hf | hf
      · obtain ⟨p, hp, -, -, hpf, -, -⟩ := mem_fitDeclared hds f hf
        have hlookup := Table.get?_of_mem hnames hp
        rw [hpf, hs] at hlookup
        cases hlookup
      · obtain ⟨e, he, -, -, hfit⟩ := mem_fitUndeclared hus f hf
        exact parts e he _ _ (hadditional s rfl) hfit
  · cases h

/-- The step at a node: when the fits of its parts agree in kind, so does its own, whatever the
schema is. The recursion is on the schema and goes through optional ones only. -/
theorem agreesInKind_node {resolve : Resolver} (hresolve : resolve.IsDirect) {v : Value}
    (items : ∀ x ∈ v.items, FitsInKind resolve x)
    (fields : ∀ e ∈ v.fields, FitsInKind resolve e.2) :
    (s : Schema) → ∀ w, s.IsDirect → fit resolve v s = .ok w → AgreesInKind (check resolve w s)
  | .string, w, _, h => by
    rw [fit_eq, fitNode] at h
    obtain ⟨t, -, rfl⟩ := map_eq_ok_iff.mp h
    rw [check_eq, checkNode]
    exact agreesInKind_expect rfl _ _
  | .int, w, _, h => by
    rw [fit_eq, fitNode] at h
    obtain ⟨n, -, rfl⟩ := map_eq_ok_iff.mp h
    rw [check_eq, checkNode]
    exact agreesInKind_expect rfl _ _
  | .float, w, _, h => by
    rw [fit_eq, fitNode] at h
    obtain ⟨x, -, rfl⟩ := map_eq_ok_iff.mp h
    rw [check_eq, checkNode]
    exact agreesInKind_expect rfl _ _
  | .bool, w, _, h => by
    rw [fit_eq, fitNode] at h
    obtain ⟨b, -, rfl⟩ := map_eq_ok_iff.mp h
    rw [check_eq, checkNode]
    exact agreesInKind_expect rfl _ _
  | .null, w, _, h => by
    rw [fit_eq, fitNode] at h
    split at h
    · cases h
      rw [check_eq, checkNode]
      exact agreesInKind_expect rfl _ _
    · cases h
  | .optional inner, w, hs, h => by
    rw [check_eq, checkNode]
    split
    · exact agreesInKind_ok
    · rw [fit_eq, fitNode] at h
      split at h
      · cases h
        contradiction
      · rw [← check_eq]
        rw [← fit_eq] at h
        exact agreesInKind_node hresolve items fields inner w hs.optional h
  | .array s, w, hs, h => by
    obtain ⟨xs, ws, rfl, rfl, hall⟩ := fit_array_eq_ok_iff.mp h
    rw [check_eq, checkNode]
    apply agreesInKind_items
    intro w hw
    obtain ⟨x, hx, hxw⟩ := exists_mem_of_forall₂ hall w hw
    exact items x hx s w hs.array hxw
  | .map key s, w, hs, h => by
    obtain ⟨es, fs, rfl, rfl, hall⟩ := fit_map_eq_ok_iff.mp h
    rw [check_eq, checkNode]
    apply agreesInKind_entries
    intro w hw
    obtain ⟨e, he, -, hfit⟩ := exists_mem_of_forall₂ hall w hw
    exact fields e he s w.2 hs.map hfit
  | .object properties required additional _, w, hs, h => by
    rw [fit_eq, fitNode] at h
    obtain ⟨hnames, hdeclared, hadditional⟩ := hs.object
    rw [check_eq, checkNode]
    exact agreesInKind_object required hnames hdeclared hadditional fields h
  | .enum values _, w, _, h => by
    rw [fit_eq, fitNode] at h
    obtain ⟨t, rfl⟩ := exists_str_of_toEnum h
    rw [check_eq, checkNode]
    exact agreesInKind_enum values t
  | .ref name, w, _, h => by
    rw [fit_eq, fitNode] at h
    rw [check_eq, checkNode]
    rcases hname : resolve name with _ | d
    · exact agreesInKind_ok
    · have hd := hresolve name d hname
      cases d with
      | enum values aliases =>
        rw [hname] at h
        obtain ⟨t, rfl⟩ := exists_str_of_toEnum h
        exact agreesInKind_enum values t
      | object properties required descriptions =>
        rw [hname] at h
        obtain ⟨hnames, hdeclared, -⟩ := hd.object
        exact agreesInKind_object required hnames hdeclared (by simp) fields h
  | .external _, w, _, _ => by
    rw [check_eq, checkNode]
    exact agreesInKind_ok
  | .anyOf members, w, hs, _ => by
    have := Schema.everywhere_self hs
    simp [Schema.isUnion] at this
  | .literal expected, w, hs, h => by
    have hl : (Schema.literal expected).hasSpelledLiteral = true := by
      have := Schema.everywhere_self hs
      simp only [Bool.and_eq_true] at this
      exact this.1.2
    rw [fit_eq, fitNode] at h
    rw [eq_of_toLiteral hl h, check_eq, checkNode]
    exact agreesInKind_expect (isLiteral_toValue hl) _ _

/-- A fit agrees in kind with its schema, for every value. -/
theorem fitsInKind {resolve : Resolver} (hresolve : resolve.IsDirect) (v : Value) :
    FitsInKind resolve v :=
  Value.ind (fun _ items fields => agreesInKind_node hresolve items fields) v

/-- **Fitting establishes the kinds that checking asks for.** Without unions, and with literals that
a text can spell, the check of a fitted value succeeds, or finds a missing key or an unknown enum
member, but never a value of the wrong kind. -/
theorem check_of_fit {resolve : Resolver} (hresolve : resolve.IsDirect) {s : Schema}
    (hs : s.IsDirect) {v w : Value} (h : fit resolve v s = .ok w) :
    check resolve w s = .ok () ∨ ∃ e : Violation, check resolve w s = .error (.violation e) ∧
      (e.cause.category = "missing_field" ∨ e.cause.category = "enum_value") ∧
      e.cause.category ≠ "type_mismatch" := by
  have agrees := fitsInKind hresolve v s w hs h
  rcases hc : check resolve w s with e | u
  · right
    obtain ⟨report, rfl, hcategory⟩ := agrees e hc
    refine ⟨report, rfl, hcategory, ?_⟩
    rcases hcategory with hcategory | hcategory <;> simp [hcategory]
  · exact .inl rfl

/-- A catalog with one definition, which refers to itself. -/
def nodeResolver : Resolver
  | "Node" => some (.object [("id", .int), ("kind", .literal (.str "leaf")),
      ("next", .optional (.ref "Node"))] ["id", "tag"] [])
  | _ => none

/-- Its definition is direct. -/
theorem nodeResolver_isDirect : nodeResolver.IsDirect := by
  intro name d h
  unfold nodeResolver at h
  split at h
  · cases h
    rfl
  · cases h

/-- Numbers that are spelled as a string and as a truth value are fitted at two depths; the tag that
the outer node misses is what the check still finds. -/
theorem check_of_fit_node :
    fit nodeResolver (.map [("next", .map [("id", .str "7"), ("tag", .null)]),
      ("kind", .str "leaf"),
        ("id", .bool true)]) (.ref "Node") =
      .ok (.map [("id", .int 1), ("kind", .str "leaf"),
        ("next", .map [("id", .int 7), ("tag", .null)])]) ∧
    (check nodeResolver (.map [("id", .int 1), ("kind", .str "leaf"),
        ("next", .map [("id", .int 7), ("tag", .null)])]) (.ref "Node") = .ok () ∨
      ∃ e : Violation, check nodeResolver (.map [("id", .int 1), ("kind", .str "leaf"),
          ("next", .map [("id", .int 7), ("tag", .null)])]) (.ref "Node") = .error (.violation e) ∧
        (e.cause.category = "missing_field" ∨ e.cause.category = "enum_value") ∧
        e.cause.category ≠ "type_mismatch") :=
  have h : fit nodeResolver (.map [("next", .map [("id", .str "7"), ("tag", .null)]),
      ("kind", .str "leaf"), ("id", .bool true)]) (.ref "Node") =
      .ok (.map [("id", .int 1), ("kind", .str "leaf"),
        ("next", .map [("id", .int 7), ("tag", .null)])]) := by cbv
  have hs : Schema.IsDirect (.ref "Node") := rfl
  ⟨h, check_of_fit nodeResolver_isDirect hs h⟩

end ShapedReply
