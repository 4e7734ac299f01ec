import ShapedReply.Proofs.Catalog.References
import ShapedReply.Proofs.Schema.Scope

/-!
# Which schemas take null

A class requires the properties whose schemas are not optional. Whether a schema is optional is read
off its outermost marks, without looking up a name; fitting and checking decide the same question on
their own, by trying null. **For schemas in which all names are known and all literals are spelled
and can be written, the three agree, and null fits as null** (`isOptional_iff_takes_null`): behind a
known name stands an enum or an object, and neither takes null.

On the way down a union neither fitting nor checking must stop early. They do not, since null only
ever fails by a misfit (`fits_null_or_misfits`) or with a report
(`check_null_ne_integerUnwritable`). Both would stop at a literal that cannot be written, and not
come to the member that takes null (`isOptional_unwritableOrNull`).
-/

namespace ShapedReply

open Check Fit

/-- A schema whose names are known, at every depth, with spelled literals that can be written and
without external names. -/
structure Schema.IsGrounded (resolve : Resolver) (s : Schema) : Prop where
  /-- Something is known about each name. -/
  known : ∀ name ∈ s.references, (resolve name).isSome = true
  /-- No name is external. -/
  internal : s.IsInternal
  /-- Literals are strings, whole numbers or truth values. -/
  spelled : s.HasSpelledLiterals
  /-- The whole numbers among the literals have at most 4300 digits. -/
  writable : s.HasWritableLiterals

namespace Schema.IsGrounded

variable {resolve : Resolver} {s x : Schema}

/-- The parts of such a schema are such schemas. -/
theorem of_mem_parts (h : s.IsGrounded resolve) (hx : x ∈ s.parts) : x.IsGrounded resolve where
  known name hname := h.known name (references_of_mem_parts hx hname)
  internal := (everywhere_iff.mp h.internal).2 x hx
  spelled := h.spelled.of_mem_parts hx
  writable := h.writable.of_mem_parts hx

/-- A name leads to its definition. -/
theorem exists_definition {name : String} (h : (Schema.ref name).IsGrounded resolve) :
    ∃ d, resolve name = some d :=
  Option.isSome_iff_exists.mp (h.known name (by simp [references]))

/-- An external name is no such schema. -/
theorem not_external {name : String} : ¬ (Schema.external name).IsGrounded resolve := by
  intro h
  exact absurd (everywhere_self h.internal) (by simp [isExternal])

end Schema.IsGrounded

variable {resolve : Resolver} {s : Schema}

/-! ## Checking -/

/-- Null is accepted by a schema with writable literals or refused with a report. Names lead to
enums and objects, whose reports name no literal, so that the literals behind them do not matter. -/
theorem check_null_ne_integerUnwritable (h : s.HasWritableLiterals) :
    check resolve .null s ≠ .error .integerUnwritable := by
  induction s using Schema.ind with
  | step s ih =>
  intro hfails
  rw [check_eq] at hfails
  cases s with
  | literal _ | array _ | map _ _ => exact h.label?_ne_none (eq_none_of_expect hfails)
  | anyOf members =>
    rw [checkNode] at hfails
    rcases checkAny_eq_error hfails with ⟨heq, -⟩ | ⟨x, hx, hmember, -⟩
    · exact h.label?_ne_none (eq_none_of_mismatch heq.symm)
    · exact ih x hx (h.of_mem_parts hx) hmember
  | ref name =>
    rw [checkNode] at hfails
    split at hfails <;> cases hfails
  | _ => cases hfails

/-- **A schema accepts null when it is optional.** -/
theorem accepts_null_iff_isOptional (h : s.IsGrounded resolve) :
    Accepts resolve .null s ↔ s.isOptional = true := by
  induction s using Schema.ind with
  | step s ih =>
  cases s with
  | null => simp [accepts_null, Schema.isOptional]
  | optional s => simp [accepts_optional, Schema.isOptional]
  | anyOf members =>
    have hreported : ∀ x ∈ members, check resolve .null x ≠ .error .integerUnwritable := fun x hx =>
      check_null_ne_integerUnwritable (h.of_mem_parts hx).writable
    rw [accepts_anyOf hreported, Schema.isOptional, Schema.anyOptional_eq_any, List.any_eq_true]
    refine exists_congr fun x => and_congr_right fun hx => ?_
    exact ih x hx (h.of_mem_parts hx)
  | ref name =>
    obtain ⟨d, hd⟩ := h.exists_definition
    rw [accepts_ref]
    cases d with
    | enum values aliases => simp [hd, Definition.toSchema, accepts_enum, Schema.isOptional]
    | object properties required descriptions =>
      simp [hd, Definition.toSchema, accepts_object, Schema.isOptional]
  | external name => exact absurd h Schema.IsGrounded.not_external
  | literal expected =>
    have hspelled := Schema.everywhere_self h.spelled
    rw [accepts_literal]
    cases expected with
    | float _ | null => cases hspelled
    | str _ | int _ | bool _ => simp [isLiteral, Schema.isOptional]
  | string => simp [accepts_string, Schema.isOptional]
  | int => simp [accepts_int, Schema.isOptional]
  | float => simp [accepts_float, Schema.isOptional]
  | bool => simp [accepts_bool, Schema.isOptional]
  | array _ => simp [accepts_array, Schema.isOptional]
  | map _ _ => simp [accepts_map, Schema.isOptional]
  | object _ _ _ _ => simp [accepts_object, Schema.isOptional]
  | enum _ _ => simp [accepts_enum, Schema.isOptional]

/-! ## Fitting -/

/-- What becomes of null: it fits as it is, or it misfits, as the mark says. -/
def NullFits (optional : Bool) (r : Fit.Result Value) : Prop :=
  if optional then r = .ok .null else ∃ e, r = .error e ∧ e.isMisfit = true

/-- A union takes null when a member does, since after a misfit it goes on. -/
theorem nullFits_fitFirst {members : List Schema} {failure : FitError}
    (hfailure : failure.isMisfit = true)
    (h : ∀ x ∈ members, NullFits x.isOptional (fit resolve .null x)) :
    NullFits (members.any Schema.isOptional) (fitFirst resolve .null [] [] failure members) := by
  induction members with
  | nil => exact ⟨failure, rfl, hfailure⟩
  | cons x members ih =>
    obtain ⟨hx, hmembers⟩ := List.forall_mem_cons.mp h
    have hfit : fitNode resolve .null [] [] x = fit resolve .null x := (fit_eq .null x).symm
    rw [fitFirst, hfit, List.any_cons]
    rcases hoptional : x.isOptional with _ | _
    · rw [hoptional] at hx
      obtain ⟨e, he, hmisfit⟩ := hx
      rw [he, Bool.false_or]
      simp only [hmisfit, if_true]
      exact ih hmembers
    · rw [hoptional] at hx
      have hnull : fit resolve .null x = .ok .null := hx
      rw [hnull, Bool.true_or]
      rfl

/-- **Null fits a schema that is optional, as it is, and misfits any other.** -/
theorem fits_null_or_misfits (h : s.IsGrounded resolve) :
    NullFits s.isOptional (fit resolve .null s) := by
  induction s using Schema.ind with
  | step s ih =>
  rw [fit_eq]
  cases s with
  | null | optional _ => rfl
  | anyOf members =>
    rw [fitNode, Schema.isOptional, Schema.anyOptional_eq_any]
    exact nullFits_fitFirst (isMisfit_misfit h.writable .null) fun x hx =>
      ih x hx (h.of_mem_parts hx)
  | ref name =>
    obtain ⟨d, hd⟩ := h.exists_definition
    rw [fitNode, hd]
    cases d with
    | enum values aliases => exact ⟨_, rfl, rfl⟩
    | object properties required descriptions => exact ⟨_, rfl, rfl⟩
  | external name => exact absurd h Schema.IsGrounded.not_external
  | literal expected =>
    have hspelled := Schema.everywhere_self h.spelled
    cases expected with
    | float _ | null => cases hspelled
    | str _ | int _ | bool _ => exact ⟨_, rfl, isMisfit_misfit h.writable .null⟩
  | string | int | float | bool | array _ | map _ _ | object _ _ _ _ | enum _ _ =>
    exact ⟨_, rfl, isMisfit_misfit h.writable .null⟩

/-- **A schema is optional when the check takes null, and when null fits; and then null fits as
null.** The names in the schema are known, and its literals are strings, truth values or whole
numbers of at most 4300 digits. -/
theorem isOptional_iff_takes_null (h : s.IsGrounded resolve) :
    (s.isOptional = true ↔ check resolve .null s = .ok ()) ∧
      (s.isOptional = true ↔ ∃ w, fit resolve .null s = .ok w) ∧
      ∀ w, fit resolve .null s = .ok w → w = .null := by
  have hfit := fits_null_or_misfits h
  refine ⟨(accepts_null_iff_isOptional h).symm, ?_⟩
  rcases hoptional : s.isOptional with _ | _
  · rw [hoptional] at hfit
    obtain ⟨e, he, -⟩ := hfit
    rw [he]
    simp
  · rw [hoptional] at hfit
    have hnull : fit resolve .null s = .ok .null := hfit
    rw [hnull]
    simp

/-- A catalog with one enum. -/
def sizeCatalog : Catalog :=
  { enums := [("Size",
      { name := "Size", values := [⟨"S", none, none⟩, ⟨"L", some "large", none⟩] })] }

/-- The mark stands two unions deep, behind a known name and a list that do not take null. -/
theorem isOptional_iff_takes_null_sizes :
    let s : Schema := .anyOf [.ref "Size", .array (.ref "Size"),
      .anyOf [.literal (.str "none"), .optional (.ref "Size")]]
    s.IsGrounded sizeCatalog.resolve ∧ s.isOptional = true ∧
      check sizeCatalog.resolve .null s = .ok () ∧
      fit sizeCatalog.resolve .null s = .ok .null := by
  intro s
  have hgrounded : s.IsGrounded sizeCatalog.resolve := ⟨by decide, rfl, rfl, rfl⟩
  have hoptional : s.isOptional = true := rfl
  obtain ⟨hcheck, hfit, hnull⟩ := isOptional_iff_takes_null hgrounded
  obtain ⟨w, hw⟩ := hfit.mp hoptional
  exact ⟨hgrounded, hoptional, hcheck.mp hoptional, hnull w hw ▸ hw⟩

/-- A union with null among its members is optional, and null neither passes the check nor fits, if
a literal in front of null has too many digits to be written: both fail at the literal, without a
report to go on from. -/
theorem isOptional_unwritableOrNull :
    unwritableOrNull.isOptional = true ∧
      ∀ resolve, check resolve .null unwritableOrNull = .error .integerUnwritable ∧
        fit resolve .null unwritableOrNull = .error .integerUnwritable := by
  refine ⟨rfl, fun resolve => ⟨check_unwritableOrNull, ?_⟩⟩
  have hfirst : fit resolve .null (.literal .unwritable) = .error .integerUnwritable :=
    fit_unwritable fun _ => rfl
  rw [fit_eq, unwritableOrNull, fitNode, fitFirst, ← fit_eq, hfirst]
  rfl

end ShapedReply
