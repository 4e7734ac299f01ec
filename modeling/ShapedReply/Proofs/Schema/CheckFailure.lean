import ShapedReply.Proofs.Schema.FitFailure

/-!
# Why a value is not accepted

A check that fails reports a violation, with one exception: **where it reports none, the schema
comes upon a literal of a whole number with too many digits to be written**
(`meetsUnwritable_of_check`). So checks against schemas without such literals always end with a
report or find nothing (`check_ne_integerUnwritable`).

The first part says for each kind of container where its failure comes from: from one of its parts,
one step further in, or from itself. Proofs about failed checks use these lemmas and never open the
check.
-/

namespace ShapedReply.Check

open Outcome

variable {resolve : Resolver} {v : Value} {s : Schema} {e : CheckError} {step : Step}

/-! ## Where checks fail -/

/-- A result seen from further out fails where the result does. -/
theorem under_eq_error {r : Result} :
    under step r = .error e ↔ ∃ d, r = .error d ∧ d.under step = e :=
  mapError_eq_error_iff

/-- A demand on the kind of a value fails by the report that the kind is another one. -/
theorem expect_eq_error {ok : Bool} {expected : Option String}
    (h : expect ok expected v = .error e) : e = mismatch expected v := by
  unfold expect at h
  split at h
  · cases h
  · exact (Except.error.inj h).symm

/-- The items of an array disagree where one of them does. -/
theorem checkItems_eq_error {xs : List Value} {i : Nat}
    (h : checkItems s i (xs.map (waiting resolve)) = .error e) :
    ∃ (n : Nat) (x : Value), xs[n]? = some x ∧
      ∃ d, check resolve x s = .error d ∧ d.under (.index (i + n : Nat)) = e := by
  induction xs generalizing i with
  | nil => cases h
  | cons x xs ih =>
    rw [List.map_cons, checkItems] at h
    rcases bind_eq_error_iff.mp h with h | ⟨_, -, h⟩
    · obtain ⟨d, hd, hunder⟩ := under_eq_error.mp h
      exact ⟨0, x, rfl, d, hd, hunder⟩
    · obtain ⟨n, y, hy, d, hd, hunder⟩ := ih h
      refine ⟨n + 1, y, hy, d, hd, ?_⟩
      rw [← hunder, Nat.add_assoc, Nat.add_comm n 1]

/-- The entries of a map disagree with one schema where one of them does. -/
theorem checkEntries_eq_error {es : List (String × Value)}
    (h : checkEntries s (es.map (waitingField resolve)) = .error e) :
    ∃ f ∈ es, ∃ d, check resolve f.2 s = .error d ∧ d.under (.key f.1) = e := by
  induction es with
  | nil => cases h
  | cons f es ih =>
    rw [List.map_cons, waitingField, checkEntries] at h
    rcases bind_eq_error_iff.mp h with h | ⟨_, -, h⟩
    · obtain ⟨d, hd, hunder⟩ := under_eq_error.mp h
      exact ⟨f, List.mem_cons_self, d, hd, hunder⟩
    · obtain ⟨g, hg, hfails⟩ := ih h
      exact ⟨g, List.mem_cons_of_mem f hg, hfails⟩

/-- The demand for required keys fails at one that is not there. -/
theorem checkRequired_eq_error {es : List (String × Value)} {required : List String}
    (h : checkRequired (es.map (waitingField resolve)) required = .error e) :
    ∃ name ∈ required, name ∉ Table.names es ∧ e = .violation ⟨.missing name, [.key name]⟩ := by
  induction required with
  | nil => cases h
  | cons name required ih =>
    rw [checkRequired] at h
    split at h
    · obtain ⟨other, hother, hlacks⟩ := ih h
      exact ⟨other, List.mem_cons_of_mem name hother, hlacks⟩
    · next hlacks =>
      have hhas : Table.has (es.map (waitingField resolve)) name = Table.has es name :=
        Table.has_mapEntries (waiting resolve) es name
      rw [hhas, Table.has_iff] at hlacks
      exact ⟨name, List.mem_cons_self, hlacks, (Except.error.inj h).symm⟩

/-- The schema that a field of an object belongs to: the declared one, or the one for undeclared
keys. -/
def fieldSchema (properties : List (String × Schema)) (additional : Option Schema) (name : String) :
    Option Schema :=
  (properties.lookup name).or additional

/-- The schema that a field belongs to is a part of the object. -/
theorem mem_parts_of_fieldSchema {properties : List (String × Schema)} {required : List String}
    {additional : Option Schema} {descriptions : List (String × Value)} {name : String} {s : Schema}
    (h : fieldSchema properties additional name = some s) :
    s ∈ (Schema.object properties required additional descriptions).parts := by
  rw [Schema.parts, List.mem_append]
  rcases Option.or_eq_some_iff.mp h with hdeclared | ⟨-, hother⟩
  · exact .inl (List.mem_map.mpr ⟨_, Table.mem_of_get? hdeclared, rfl⟩)
  · exact .inr (Option.mem_toList.mpr hother)

/-- The fields of a map disagree where one of them does with the schema that it belongs to. -/
theorem checkFields_eq_error {properties : List (String × Schema)} {additional : Option Schema}
    {es : List (String × Value)}
    (h : checkFields properties additional (es.map (waitingField resolve)) = .error e) :
    ∃ f ∈ es, ∃ t, fieldSchema properties additional f.1 = some t ∧
      ∃ d, check resolve f.2 t = .error d ∧ d.under (.key f.1) = e := by
  induction es with
  | nil => cases h
  | cons f es ih =>
    have hlater (h : checkFields properties additional (es.map (waitingField resolve)) = .error e) :
        ∃ g ∈ f :: es, ∃ t, fieldSchema properties additional g.1 = some t ∧
          ∃ d, check resolve g.2 t = .error d ∧ d.under (.key g.1) = e := by
      obtain ⟨g, hg, hfails⟩ := ih h
      exact ⟨g, List.mem_cons_of_mem f hg, hfails⟩
    have hfirst {t : Schema} (ht : fieldSchema properties additional f.1 = some t)
        (h : (under (.key f.1) (check resolve f.2 t) >>= fun _ =>
          checkFields properties additional (es.map (waitingField resolve))) = .error e) :
        ∃ g ∈ f :: es, ∃ t, fieldSchema properties additional g.1 = some t ∧
          ∃ d, check resolve g.2 t = .error d ∧ d.under (.key g.1) = e := by
      rcases bind_eq_error_iff.mp h with h | ⟨_, -, h⟩
      · exact ⟨f, List.mem_cons_self, t, ht, under_eq_error.mp h⟩
      · exact hlater h
    simp only [List.map_cons, waitingField, checkFields] at h
    rcases hfound : properties.lookup f.1 with _ | t
    · rw [hfound] at h
      cases additional with
      | none => exact hlater h
      | some t => exact hfirst (by rw [fieldSchema, hfound]; rfl) h
    · rw [hfound] at h
      exact hfirst (by rw [fieldSchema, hfound]; rfl) h

/-- A value disagrees with an object schema because it is no map, or lacks a required key, or where
one of its fields disagrees with the schema that it belongs to. -/
theorem checkObject_eq_error {properties : List (String × Schema)} {required : List String}
    {additional : Option Schema}
    (h : checkObject properties required additional v (v.fields.map (waitingField resolve)) =
      .error e) :
    ((∀ es, v ≠ .map es) ∧ e = mismatch "object" v) ∨
      (∃ es, v = .map es ∧ ∃ name ∈ required, name ∉ Table.names es ∧
        e = .violation ⟨.missing name, [.key name]⟩) ∨
      ∃ f ∈ v.fields, ∃ t, fieldSchema properties additional f.1 = some t ∧
        ∃ d, check resolve f.2 t = .error d ∧ d.under (.key f.1) = e := by
  unfold checkObject at h
  split at h
  · next es =>
    right
    rcases bind_eq_error_iff.mp h with h | ⟨_, -, h⟩
    · exact .inl ⟨es, rfl, checkRequired_eq_error h⟩
    · exact .inr (checkFields_eq_error h)
  · next hnone => exact .inl ⟨hnone, expect_eq_error h⟩

/-- A union disagrees with a value in its own name, after all its members have reported violations,
or it fails as one of its members does, without a report. -/
theorem checkAny_eq_error {name : Option String} {members : List Schema}
    (h : checkAny resolve v (v.items.map (waiting resolve)) (v.fields.map (waitingField resolve))
      name members = .error e) :
    (e = mismatch name v ∧
      ∀ x ∈ members, ∃ report, check resolve v x = .error (.violation report)) ∨
      ∃ x ∈ members, check resolve v x = .error e ∧ e.isViolation = false := by
  induction members with
  | nil => exact .inl ⟨expect_eq_error h, fun x hx => absurd hx List.not_mem_nil⟩
  | cons x members ih =>
    rw [checkAny, ← check_eq] at h
    split at h
    · cases h
    · next d hd =>
      cases d with
      | violation report =>
        rcases ih h with ⟨heq, hall⟩ | ⟨y, hy, hfails⟩
        · exact .inl ⟨heq, List.forall_mem_cons.mpr ⟨⟨report, hd⟩, hall⟩⟩
        · exact .inr ⟨y, List.mem_cons_of_mem x hy, hfails⟩
      | integerUnwritable =>
        cases h
        exact .inr ⟨x, List.mem_cons_self, hd, rfl⟩

/-! ## Failures without a report -/

/-- A failure without a report has none further in. -/
theorem eq_integerUnwritable_of_under {d : CheckError} (h : d.under step = .integerUnwritable) :
    d = .integerUnwritable := by
  cases d with
  | violation report => cases h
  | integerUnwritable => rfl

/-- A kind that is not found is reported, unless it has no name. -/
theorem eq_none_of_mismatch {expected : Option String}
    (h : mismatch expected v = .integerUnwritable) : expected = none := by
  cases expected with
  | some name => cases h
  | none => rfl

/-- A kind that is asked for and not found is reported, unless it has no name. -/
theorem eq_none_of_expect {ok : Bool} {expected : Option String}
    (h : expect ok expected v = .error .integerUnwritable) : expected = none :=
  eq_none_of_mismatch (expect_eq_error h).symm

/-- A map disagrees with an object schema without a report where a field does. -/
theorem exists_field_of_checkObject {properties : List (String × Schema)} {required : List String}
    {additional : Option Schema}
    (h : checkObject properties required additional v (v.fields.map (waitingField resolve)) =
      .error .integerUnwritable) :
    ∃ f ∈ v.fields, ∃ t, fieldSchema properties additional f.1 = some t ∧
      check resolve f.2 t = .error .integerUnwritable := by
  rcases checkObject_eq_error h with
    ⟨-, heq⟩ | ⟨es, -, name, -, -, heq⟩ | ⟨f, hf, t, ht, d, hd, heq⟩
  · cases heq
  · cases heq
  · rw [eq_integerUnwritable_of_under heq] at hd
    exact ⟨f, hf, t, ht, hd⟩

/-- What is not among the values of an enum is reported. -/
theorem checkEnum_ne_integerUnwritable (values : List String) (v : Value) :
    checkEnum values v ≠ .error .integerUnwritable := by
  intro h
  cases v with
  | str t =>
    rw [checkEnum] at h
    split at h <;> cases h
  | _ => cases h

/-- A literal that cannot be written, or null. -/
def unwritableOrNull : Schema :=
  .anyOf [.literal .unwritable, .null]

/-- Null disagrees with that union without a report, though null is one of its members. -/
theorem check_unwritableOrNull :
    check resolve .null unwritableOrNull = .error .integerUnwritable := by
  have hfirst : check resolve .null (.literal .unwritable) = .error .integerUnwritable := by
    rw [check_eq, checkNode, Schema.label?_literal_eq_none Scalar.isWritable_unwritable]
    rfl
  rw [check_eq, unwritableOrNull, checkNode, checkAny, ← check_eq, hfirst]
  rfl

/-- **A check fails without a report only where the schema comes upon a literal that cannot be
written.** -/
theorem meetsUnwritable_of_check (v : Value) :
    ∀ s : Schema, check resolve v s = .error .integerUnwritable → s.MeetsUnwritable resolve := by
  induction v using Value.ind with
  | step v hitems hfields =>
  have hunnamed {s : Schema} (h : s.label? = none) : s.MeetsUnwritable resolve :=
    Schema.meetsUnwritable_of_label? resolve h
  have hobject (properties required additional descriptions)
      (h : checkObject properties required additional v (v.fields.map (waitingField resolve)) =
        .error .integerUnwritable) :
      (Schema.object properties required additional descriptions).MeetsUnwritable resolve := by
    obtain ⟨f, hf, t, ht, hfails⟩ := exists_field_of_checkObject h
    exact (hfields f hf t hfails).of_mem_parts (mem_parts_of_fieldSchema ht)
  intro s
  induction s using Schema.ind with
  | step s ih =>
  intro h
  rw [check_eq] at h
  cases s with
  | string | int | float | bool | null => cases eq_none_of_expect h
  | literal expected => exact hunnamed (eq_none_of_expect h)
  | array s =>
    cases v with
    | array xs =>
      obtain ⟨n, x, hx, d, hd, hunder⟩ := checkItems_eq_error h
      rw [eq_integerUnwritable_of_under hunder] at hd
      exact (hitems x (List.mem_of_getElem? hx) s hd).of_mem_parts (List.mem_singleton_self s)
    | _ => exact hunnamed (eq_none_of_expect h)
  | map key s =>
    cases v with
    | map es =>
      obtain ⟨f, hf, d, hd, hunder⟩ := checkEntries_eq_error h
      rw [eq_integerUnwritable_of_under hunder] at hd
      exact (hfields f hf s hd).of_mem_parts
        (List.mem_cons_of_mem key (List.mem_singleton_self s))
    | _ => exact hunnamed (eq_none_of_expect h)
  | object properties required additional descriptions => exact hobject _ _ _ _ h
  | enum values aliases => exact absurd h (checkEnum_ne_integerUnwritable values v)
  | ref name =>
    rw [checkNode] at h
    split at h
    · exact absurd h (checkEnum_ne_integerUnwritable _ v)
    · next properties required descriptions hd =>
      obtain ⟨node, hnode, hunwritable⟩ := hobject properties required none descriptions h
      exact ⟨node, .definition hd hnode, hunwritable⟩
    · cases h
  | external name => cases h
  | anyOf members =>
    rw [checkNode] at h
    rcases checkAny_eq_error h with ⟨heq, -⟩ | ⟨x, hx, hfails, -⟩
    · exact hunnamed (eq_none_of_mismatch heq.symm)
    · exact (ih x hx hfails).of_mem_parts hx
  | optional s =>
    rw [checkNode] at h
    split at h
    · cases h
    · rw [← check_eq] at h
      have hmem := List.mem_singleton_self s
      exact (ih s hmem h).of_mem_parts hmem

/-- **A check ends with a report or finds nothing, where all literals can be written.** -/
theorem check_ne_integerUnwritable (hresolve : resolve.HasWritableLiterals)
    (hs : s.HasWritableLiterals) (v : Value) : check resolve v s ≠ .error .integerUnwritable := by
  have hnone : ¬ s.MeetsUnwritable resolve :=
    Schema.not_meetsUnwritable (fun _ hn => hn) (fun name d _ hd => hresolve name d hd) hs
  exact fun h => hnone (meetsUnwritable_of_check v s h)

end ShapedReply.Check
