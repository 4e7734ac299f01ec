import ShapedReply.Proofs.Schema.CheckFailure

/-!
# Which values a schema accepts

A schema accepts a value when the check finds nothing. The check reports the first disagreement and
so runs in a fixed order; acceptance does not depend on that order, and this file says for each kind
of schema what it comes to: all items of an array, some member of a union, the declared shape of
each field of a map. Proofs about acceptance use these equivalences and never open the check.

A union goes on to its next member after a report only, so it accepts what one of its members
accepts where no member fails without one (`accepts_anyOf`).
-/

namespace ShapedReply

/-- A schema accepts a value when the check finds nothing. -/
def Accepts (resolve : Resolver) (v : Value) (s : Schema) : Prop :=
  check resolve v s = .ok ()

namespace Check

open Outcome

variable {resolve : Resolver}

/-! ## Chains of checks -/

/-- Two checks in a row find nothing when neither does. -/
theorem bind_eq_ok {r q : Result} : (r >>= fun _ => q) = .ok () ↔ r = .ok () ∧ q = .ok () := by
  rw [bind_eq_ok_iff]
  exact ⟨fun ⟨_, hr, hq⟩ => ⟨hr, hq⟩, fun ⟨hr, hq⟩ => ⟨(), hr, hq⟩⟩

/-- Seen from further out, a result is the same success. -/
theorem under_eq_ok {step : Step} {r : Result} : under step r = .ok () ↔ r = .ok () :=
  mapError_eq_ok_iff

/-- A demand on the kind of a value is met exactly if the condition holds. -/
theorem expect_eq_ok {ok : Bool} {expected : Option String} {v : Value} :
    expect ok expected v = .ok () ↔ ok = true := by
  cases ok <;> simp [expect]

/-- Items pass exactly if each of them is accepted. -/
theorem checkItems_eq_ok {s : Schema} {xs : List Value} {i : Nat} :
    checkItems s i (xs.map (waiting resolve)) = .ok () ↔ ∀ x ∈ xs, Accepts resolve x s := by
  induction xs generalizing i with
  | nil => simp [checkItems]
  | cons x xs ih =>
    rw [List.map_cons, checkItems, bind_eq_ok, under_eq_ok, ih, List.forall_mem_cons]
    rfl

/-- Entries pass exactly if the value of each is accepted. -/
theorem checkEntries_eq_ok {s : Schema} {es : List (String × Value)} :
    checkEntries s (es.map (waitingField resolve)) = .ok () ↔ ∀ e ∈ es, Accepts resolve e.2 s := by
  induction es with
  | nil => simp [checkEntries]
  | cons e es ih =>
    rw [List.map_cons, waitingField, checkEntries, bind_eq_ok, under_eq_ok, ih,
      List.forall_mem_cons]
    rfl

/-- Required keys pass exactly if each of them is there. -/
theorem checkRequired_eq_ok {es : List (String × Value)} {required : List String} :
    checkRequired (es.map (waitingField resolve)) required = .ok () ↔
      ∀ name ∈ required, name ∈ Table.names es := by
  have hnames : Table.names (es.map (waitingField resolve)) = Table.names es := by
    simp [Table.names, waitingField]
  induction required with
  | nil => simp [checkRequired]
  | cons name required ih =>
    rw [checkRequired, List.forall_mem_cons]
    split
    · next h =>
      rw [Table.has_iff, hnames] at h
      exact ih.trans (and_iff_right h).symm
    · next h =>
      rw [Table.has_iff, hnames] at h
      simp [h]

/-- Fields pass exactly if each is accepted by the schema that it belongs to. -/
theorem checkFields_eq_ok {properties : List (String × Schema)} {additional : Option Schema}
    {es : List (String × Value)} :
    checkFields properties additional (es.map (waitingField resolve)) = .ok () ↔
      ∀ e ∈ es, ∀ s, fieldSchema properties additional e.1 = some s → Accepts resolve e.2 s := by
  induction es with
  | nil => simp [checkFields]
  | cons e es ih =>
    rw [List.forall_mem_cons, ← ih]
    simp only [List.map_cons, waitingField, checkFields, fieldSchema]
    rcases hfound : properties.lookup e.1 with _ | s
    · cases additional with
      | none => simp [Option.or, bind_eq_ok]
      | some s =>
        simp only [Option.none_or, Option.some.injEq, forall_eq']
        rw [bind_eq_ok, under_eq_ok]
        rfl
    · simp only [Option.some_or, Option.some.injEq, forall_eq']
      rw [bind_eq_ok, under_eq_ok]
      rfl

/-- Against an object pass exactly the maps with the required keys whose fields are accepted. -/
theorem checkObject_eq_ok {properties : List (String × Schema)} {required : List String}
    {additional : Option Schema} {v : Value} :
    checkObject properties required additional v (v.fields.map (waitingField resolve)) = .ok () ↔
      ∃ es, v = .map es ∧ (∀ name ∈ required, name ∈ Table.names es) ∧
        ∀ e ∈ es, ∀ s, fieldSchema properties additional e.1 = some s → Accepts resolve e.2 s := by
  cases v with
  | map es =>
    rw [checkObject, Value.fields, bind_eq_ok, checkRequired_eq_ok, checkFields_eq_ok]
    simp
  | _ => simp [checkObject, expect]

/-- Against an enum pass exactly its values, or all strings if it lists none. -/
theorem checkEnum_eq_ok {values : List String} {v : Value} :
    checkEnum values v = .ok () ↔ ∃ t, v = .str t ∧ (values = [] ∨ t ∈ values) := by
  cases v with
  | str t =>
    rw [checkEnum]
    simp only [Value.str.injEq, exists_eq_left', ← List.isEmpty_iff, ← List.contains_iff_mem,
      ← Bool.or_eq_true]
    split
    · next h => simpa using h
    · next h => simpa using h
  | _ => simp [checkEnum, expect]

end Check

open Check

variable {resolve : Resolver} {v : Value}

/-! ## One equivalence for each kind of schema -/

/-- Strings are accepted. -/
theorem accepts_string : Accepts resolve v .string ↔ ∃ t, v = .str t := by
  rw [Accepts, check_eq, checkNode, expect_eq_ok]
  cases v <;> simp [Value.kind]

/-- Whole numbers are accepted. -/
theorem accepts_int : Accepts resolve v .int ↔ ∃ n, v = .int n := by
  rw [Accepts, check_eq, checkNode, expect_eq_ok]
  cases v <;> simp [Value.kind]

/-- A whole number is accepted where a double is asked for. -/
theorem accepts_float : Accepts resolve v .float ↔ (∃ n, v = .int n) ∨ ∃ x, v = .float x := by
  rw [Accepts, check_eq, checkNode, expect_eq_ok]
  cases v <;> simp [Value.kind]

/-- Truth values are accepted. -/
theorem accepts_bool : Accepts resolve v .bool ↔ ∃ b, v = .bool b := by
  rw [Accepts, check_eq, checkNode, expect_eq_ok]
  cases v <;> simp [Value.kind]

/-- Null is accepted. -/
theorem accepts_null : Accepts resolve v .null ↔ v = .null := by
  rw [Accepts, check_eq, checkNode, expect_eq_ok]
  cases v <;> simp [Value.kind]

/-- Null is accepted, and what the schema inside accepts. -/
theorem accepts_optional {s : Schema} :
    Accepts resolve v (.optional s) ↔ v = .null ∨ Accepts resolve v s := by
  rw [Accepts, check_eq, checkNode, ← check_eq]
  split
  · next h => simp [h]
  · next h => simp [h, Accepts]

/-- Arrays of accepted items are accepted. -/
theorem accepts_array {s : Schema} :
    Accepts resolve v (.array s) ↔ ∃ xs, v = .array xs ∧ ∀ x ∈ xs, Accepts resolve x s := by
  rw [Accepts, check_eq]
  cases v with
  | array xs =>
    rw [checkNode, Value.items, checkItems_eq_ok]
    simp
  | _ => simp [checkNode, expect]

/-- Maps of accepted values are accepted; the schema of the keys does not count. -/
theorem accepts_map {key s : Schema} :
    Accepts resolve v (.map key s) ↔ ∃ es, v = .map es ∧ ∀ e ∈ es, Accepts resolve e.2 s := by
  rw [Accepts, check_eq]
  cases v with
  | map es =>
    rw [checkNode, Value.fields, checkEntries_eq_ok]
    simp
  | _ => simp [checkNode, expect]

/-- Maps with the required keys are accepted, if their fields are by the schemas that they belong
to. -/
theorem accepts_object {properties : List (String × Schema)} {required : List String}
    {additional : Option Schema} {descriptions : List (String × Value)} :
    Accepts resolve v (.object properties required additional descriptions) ↔
      ∃ es, v = .map es ∧ (∀ name ∈ required, name ∈ Table.names es) ∧
        ∀ e ∈ es, ∀ s, fieldSchema properties additional e.1 = some s → Accepts resolve e.2 s := by
  rw [Accepts, check_eq, checkNode, checkObject_eq_ok]

/-- The values of an enum are accepted, or all strings if it lists none. -/
theorem accepts_enum {values : List String} {aliases : List (String × String)} :
    Accepts resolve v (.enum values aliases) ↔ ∃ t, v = .str t ∧ (values = [] ∨ t ∈ values) := by
  rw [Accepts, check_eq, checkNode, checkEnum_eq_ok]

/-- A name accepts what its definition accepts, and everything if it has none. -/
theorem accepts_ref {name : String} :
    Accepts resolve v (.ref name) ↔
      ∀ d, resolve name = some d → Accepts resolve v d.toSchema := by
  rw [Accepts, check_eq, checkNode]
  rcases resolve name with _ | d
  · simp
  · simp only [Option.some.injEq, forall_eq']
    cases d with
    | enum values aliases => rw [Definition.toSchema, accepts_enum, checkEnum_eq_ok]
    | object properties required descriptions =>
      rw [Definition.toSchema, accepts_object, checkObject_eq_ok]

/-- A union accepts what one of its members accepts, if no member fails without a report. -/
theorem accepts_anyOf {members : List Schema}
    (h : ∀ s ∈ members, check resolve v s ≠ .error .integerUnwritable) :
    Accepts resolve v (.anyOf members) ↔ ∃ s ∈ members, Accepts resolve v s := by
  rw [Accepts, check_eq, checkNode]
  generalize (Schema.anyOf members).label? = name
  induction members with
  | nil => simp [checkAny, expect]
  | cons s members ih =>
    rw [List.forall_mem_cons] at h
    rw [checkAny, ← check_eq, List.exists_mem_cons_iff, ← ih h.2, Accepts]
    rcases hs : check resolve v s with (report | _) | u
    · simp [CheckError.isViolation]
    · exact absurd hs h.1
    · simp

/-- Where all literals can be written, a union accepts what one of its members accepts. -/
theorem accepts_anyOf_of_writable {members : List Schema} (hresolve : resolve.HasWritableLiterals)
    (h : (Schema.anyOf members).HasWritableLiterals) :
    Accepts resolve v (.anyOf members) ↔ ∃ s ∈ members, Accepts resolve v s :=
  accepts_anyOf fun _ hs => check_ne_integerUnwritable hresolve (h.of_mem_parts hs) v

/-- What a union accepts is accepted by one of its members. -/
theorem exists_accepts_of_anyOf {members : List Schema} (h : Accepts resolve v (.anyOf members)) :
    ∃ s ∈ members, Accepts resolve v s := by
  rw [Accepts, check_eq, checkNode] at h
  generalize (Schema.anyOf members).label? = name at h
  induction members with
  | nil => cases h
  | cons s members ih =>
    rw [checkAny, ← check_eq] at h
    rcases hs : check resolve v s with (report | _) | u
    · rw [hs] at h
      obtain ⟨x, hx, haccepts⟩ := ih h
      exact ⟨x, List.mem_cons_of_mem s hx, haccepts⟩
    · rw [hs] at h
      cases h
    · exact ⟨s, List.mem_cons_self, hs⟩

/-- What is of the kind of a literal and equal to it is accepted. -/
theorem accepts_literal {expected : Scalar} :
    Accepts resolve v (.literal expected) ↔ isLiteral expected v = true := by
  rw [Accepts, check_eq, checkNode, expect_eq_ok]

end ShapedReply
