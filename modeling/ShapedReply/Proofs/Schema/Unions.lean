import ShapedReply.Proofs.Schema.Conformance

/-!
# What a union takes

A union is fitted to the first member that a value fits and checked against all members. A fit adds
no keys and leaves unknown words of an enum as they are, so the first member that takes a value need
not be one that accepts what it made of it, and a later member, which would have accepted its own
fit, is never asked. This file says that nothing else can go wrong: **where some member takes a
value and accepts its fit, the union takes it by the first member that does not refuse it, and
accepts what that made of it, unless a key is missing there or a word is unknown**
(`fit_anyOf_of_member`).

* `Lacks`: a required key is missing somewhere in a value, or a word is not among the values of an
  enum.
* `accepts_or_lacks`: this is all that a schema may find in a value that was fitted to it.
* `fit_anyOf_eq_ok`: the fit to a union is the fit to a member, and the members before it are
  misfits.
-/

namespace ShapedReply

open Check Fit Outcome

variable {resolve : Resolver} {v w : Value} {s : Schema}

/-! ## What a fit leaves undone -/

/-- Somewhere in a value, where its schema meets an object or an enum, a required key is missing or
a word is not among the values. -/
inductive Lacks (resolve : Resolver) : Value → Schema → Prop
  | key {properties : List (String × Schema)} {required : List String} {additional : Option Schema}
      {descriptions : List (String × Value)} {es : List (String × Value)} {name : String}
      (asked : name ∈ required) (missing : name ∉ Table.names es) :
      Lacks resolve (.map es) (.object properties required additional descriptions)
  | word {values : List String} {aliases : List (String × String)} {t : String}
      (closed : values ≠ []) (unknown : t ∉ values) : Lacks resolve (.str t) (.enum values aliases)
  | item {s : Schema} {xs : List Value} {x : Value} (mem : x ∈ xs) (h : Lacks resolve x s) :
      Lacks resolve (.array xs) (.array s)
  | entry {key s : Schema} {es : List (String × Value)} {e : String × Value} (mem : e ∈ es)
      (h : Lacks resolve e.2 s) : Lacks resolve (.map es) (.map key s)
  | field {properties : List (String × Schema)} {required : List String}
      {additional : Option Schema} {descriptions : List (String × Value)}
      {es : List (String × Value)} {e : String × Value} {s : Schema} (mem : e ∈ es)
      (belongs : fieldSchema properties additional e.1 = some s)
      (h : Lacks resolve e.2 s) :
      Lacks resolve (.map es) (.object properties required additional descriptions)
  | definition {name : String} {d : Definition} {v : Value} (known : resolve name = some d)
      (h : Lacks resolve v d.toSchema) : Lacks resolve v (.ref name)
  | member {members : List Schema} {s : Schema} {v : Value} (mem : s ∈ members)
      (h : Lacks resolve v s) : Lacks resolve v (.anyOf members)
  | optional {s : Schema} {v : Value} (h : Lacks resolve v s) : Lacks resolve v (.optional s)

/-- A string is accepted by an enum, or it is an unknown word. -/
theorem accepts_or_lacks_enum {values : List String} {aliases : List (String × String)}
    (h : toEnum values aliases v = .ok w) :
    Accepts resolve w (.enum values aliases) ∨ Lacks resolve w (.enum values aliases) := by
  obtain ⟨t, rfl⟩ := exists_str_of_toEnum h
  by_cases hmember : values = [] ∨ t ∈ values
  · exact .inl (accepts_enum.mpr ⟨t, rfl, hmember⟩)
  · rw [not_or] at hmember
    exact .inr (.word hmember.1 hmember.2)

/-- The fit of an array is accepted or lacks something, when that is so for the fits of its
items. -/
theorem accepts_or_lacks_array
    (hitems : ∀ x ∈ v.items, ∀ y, fit resolve x s = .ok y → Accepts resolve y s ∨ Lacks resolve y s)
    (h : fit resolve v (.array s) = .ok w) :
    Accepts resolve w (.array s) ∨ Lacks resolve w (.array s) := by
  obtain ⟨xs, ws, rfl, rfl, hfits⟩ := fit_array_eq_ok_iff.mp h
  by_cases hall : ∀ y ∈ ws, Accepts resolve y s
  · exact .inl (accepts_array.mpr ⟨ws, rfl, hall⟩)
  · push Not at hall
    obtain ⟨y, hy, hrejects⟩ := hall
    obtain ⟨x, hx, hfit⟩ := exists_mem_of_forall₂ hfits y hy
    exact .inr (.item hy ((hitems x hx y hfit).resolve_left hrejects))

/-- The fit of a map is accepted or lacks something, when that is so for the fits of its entries. -/
theorem accepts_or_lacks_map {key : Schema}
    (hfields : ∀ e ∈ v.fields, ∀ y, fit resolve e.2 s = .ok y → Accepts resolve y s ∨
      Lacks resolve y s)
    (h : fit resolve v (.map key s) = .ok w) :
    Accepts resolve w (.map key s) ∨ Lacks resolve w (.map key s) := by
  obtain ⟨es, fs, rfl, rfl, hfits⟩ := fit_map_eq_ok_iff.mp h
  by_cases hall : ∀ f ∈ fs, Accepts resolve f.2 s
  · exact .inl (accepts_map.mpr ⟨fs, rfl, hall⟩)
  · push Not at hall
    obtain ⟨f, hf, hrejects⟩ := hall
    obtain ⟨e, he, -, hfit⟩ := exists_mem_of_forall₂ hfits f hf
    exact .inr (.entry hf ((hfields e he f.2 hfit).resolve_left hrejects))

/-- The fit of a map to an object schema is accepted or lacks something, when that is so for the
fits of its fields. -/
theorem accepts_or_lacks_object {properties : List (String × Schema)} {required : List String}
    {additional : Option Schema} {descriptions : List (String × Value)}
    (hnames : (Table.names properties).Nodup)
    (hfields : ∀ f ∈ v.fields, ∀ x ∈ properties.map (·.2) ++ additional.toList, ∀ y,
      fit resolve f.2 x = .ok y → Accepts resolve y x ∨ Lacks resolve y x)
    (h : fit resolve v (.object properties required additional descriptions) = .ok w) :
    Accepts resolve w (.object properties required additional descriptions) ∨
      Lacks resolve w (.object properties required additional descriptions) := by
  rw [fit_eq, fitNode] at h
  cases v with
  | map es =>
    obtain ⟨fs, rfl, -, horigin⟩ := fitObject_eq_ok h
    by_cases hrequired : ∀ name ∈ required, name ∈ Table.names fs
    · by_cases hall : ∀ f ∈ fs, ∀ s, fieldSchema properties additional f.1 = some s →
        Accepts resolve f.2 s
      · exact .inl (accepts_object.mpr ⟨fs, rfl, hrequired, hall⟩)
      · push Not at hall
        obtain ⟨f, hf, s, hs, hrejects⟩ := hall
        obtain ⟨e, he, -, ⟨x, hasks, hfit⟩ | ⟨hfree, rfl, -⟩⟩ := horigin f hf
        · obtain rfl := Option.some.inj (hs.symm.trans (fieldSchema_of_asksAt hnames hasks))
          have hlacks := (hfields e he s hasks.mem f.2 hfit).resolve_left hrejects
          exact .inr (.field hf hs hlacks)
        · rw [fieldSchema_of_free hfree] at hs
          cases hs
    · push Not at hrequired
      obtain ⟨name, hasked, hmissing⟩ := hrequired
      exact .inr (.key hasked hmissing)
  | _ => cases h

/-- A definition is an enum or an object, so its fit is accepted or lacks something, when that is so
for the fits of the fields. -/
theorem accepts_or_lacks_definition {d : Definition} (hd : d.toSchema.IsFittable)
    (hfields : ∀ f ∈ v.fields, ∀ (x : Schema) (y : Value), x.IsFittable →
      fit resolve f.2 x = .ok y → Accepts resolve y x ∨ Lacks resolve y x)
    (h : fit resolve v d.toSchema = .ok w) :
    Accepts resolve w d.toSchema ∨ Lacks resolve w d.toSchema := by
  cases d with
  | enum values aliases =>
    rw [Definition.toSchema, fit_eq, fitNode] at h
    exact accepts_or_lacks_enum h
  | object properties required descriptions =>
    have hnames := (Schema.isFittable_iff.mp hd).1.2.2
    refine accepts_or_lacks_object
      (by simpa [Definition.toSchema, Schema.hasDistinctNames] using hnames) ?_ h
    intro f hf x hx y hfit
    exact hfields f hf x y (hd.of_mem_parts hx) hfit

/-! ## The first member that fits -/

/-- The search for a member stops at the first that fits, and goes past misfits only. -/
theorem fitFirst_eq_ok {items : List Fit.Waiting} {fields : List (String × Fit.Waiting)}
    {failure : FitError} {members : List Schema}
    (h : fitFirst resolve v items fields failure members = .ok w) :
    ∃ before first after, members = before ++ first :: after ∧
      (∀ x ∈ before, ∃ e, fitNode resolve v items fields x = .error e ∧ e.isMisfit = true) ∧
      fitNode resolve v items fields first = .ok w := by
  induction members with
  | nil => cases h
  | cons s rest ih =>
    rw [fitFirst] at h
    split at h
    · next u hfit =>
      cases h
      exact ⟨[], s, rest, rfl, by simp, hfit⟩
    · next e hfit =>
      split at h
      · next hmisfit =>
        obtain ⟨before, first, after, rfl, hbefore, hfirst⟩ := ih h
        refine ⟨s :: before, first, after, rfl, ?_, hfirst⟩
        exact List.forall_mem_cons.mpr ⟨⟨e, hfit, hmisfit⟩, hbefore⟩
      · cases h

/-- The fit to a union is the fit to a member, and the members before it are misfits. -/
theorem fit_anyOf_eq_ok {members : List Schema} (h : fit resolve v (.anyOf members) = .ok w) :
    ∃ before first after, members = before ++ first :: after ∧
      (∀ x ∈ before, ∃ e, fit resolve v x = .error e ∧ e.isMisfit = true) ∧
      fit resolve v first = .ok w := by
  rw [fit_eq, fitNode] at h
  simp only [fit_eq v]
  exact fitFirst_eq_ok h

/-- A union takes what one of its members takes. -/
theorem exists_fit_anyOf {members : List Schema} {m : Schema} (hresolve : resolve.IsFittable)
    (hs : Schema.IsFittable (.anyOf members)) (hv : v.HasShortNumerals) (hm : m ∈ members)
    (h : fit resolve v m = .ok w) : ∃ u, fit resolve v (.anyOf members) = .ok u := by
  rcases hfit : fit resolve v (.anyOf members) with e | u
  · rw [fit_eq, fitNode] at hfit
    rcases fitFirst_eq_error hfit with ⟨-, hall⟩ | ⟨x, hx, hfails, hfinal⟩
    · obtain ⟨d, hd, -⟩ := hall m hm
      rw [← fit_eq, h] at hd
      cases hd
    · rw [← fit_eq] at hfails
      rw [isMisfit_of_fit hresolve (hs.of_mem_parts hx) hv hfails] at hfinal
      cases hfinal
  · exact ⟨u, rfl⟩

/-! ## All that may be wrong with a fit -/

/-- **A fit is accepted, or a key is missing or a word unknown.** -/
theorem accepts_or_lacks (hresolve : resolve.IsFittable) (v : Value) :
    ∀ (s : Schema) (w : Value), s.IsFittable → fit resolve v s = .ok w →
      Accepts resolve w s ∨ Lacks resolve w s := by
  induction v using Value.ind with
  | step v hitems hfields =>
  intro s
  induction s using Schema.ind with
  | step s ih =>
  intro w hs h
  have hpart (x : Schema) (hx : x ∈ s.parts) : x.IsFittable := hs.of_mem_parts hx
  obtain ⟨hspelled, -, hdistinct⟩ := (Schema.isFittable_iff.mp hs).1
  cases s with
  | string =>
    rw [fit_eq, fitNode] at h
    obtain ⟨t, -, rfl⟩ := map_eq_ok_iff.mp h
    exact .inl (accepts_string.mpr ⟨t, rfl⟩)
  | int =>
    rw [fit_eq, fitNode] at h
    obtain ⟨n, -, rfl⟩ := map_eq_ok_iff.mp h
    exact .inl (accepts_int.mpr ⟨n, rfl⟩)
  | float =>
    rw [fit_eq, fitNode] at h
    obtain ⟨x, -, rfl⟩ := map_eq_ok_iff.mp h
    exact .inl (accepts_float.mpr (.inr ⟨x, rfl⟩))
  | bool =>
    rw [fit_eq, fitNode] at h
    obtain ⟨b, -, rfl⟩ := map_eq_ok_iff.mp h
    exact .inl (accepts_bool.mpr ⟨b, rfl⟩)
  | null =>
    rw [fit_eq, fitNode] at h
    split at h
    · cases h
      exact .inl (accepts_null.mpr rfl)
    · cases h
  | external name =>
    have haccepts : Accepts resolve w (.external name) := by rw [Accepts, check_eq, checkNode]
    exact .inl haccepts
  | literal expected =>
    rw [fit_eq, fitNode] at h
    obtain rfl := eq_of_toLiteral hspelled h
    exact .inl (accepts_literal.mpr (isLiteral_toValue hspelled))
  | enum values aliases =>
    rw [fit_eq, fitNode] at h
    exact accepts_or_lacks_enum h
  | array s =>
    refine accepts_or_lacks_array (fun x hx y hfit => ?_) h
    exact hitems x hx s y (hpart s (by simp [Schema.parts])) hfit
  | map key s =>
    refine accepts_or_lacks_map (fun e he y hfit => ?_) h
    exact hfields e he s y (hpart s (by simp [Schema.parts])) hfit
  | object properties required additional descriptions =>
    refine accepts_or_lacks_object (by simpa [Schema.hasDistinctNames] using hdistinct) ?_ h
    intro f hf x hx y hfit
    exact hfields f hf x y (hpart x hx) hfit
  | ref name =>
    rcases hd : resolve name with _ | d
    · refine .inl (accepts_ref.mpr ?_)
      intro d hsome
      rw [hd] at hsome
      cases hsome
    · rw [fit_ref hd] at h
      have hdefinition := accepts_or_lacks_definition (hresolve name d hd) hfields h
      refine hdefinition.imp (fun haccepts => accepts_ref.mpr ?_) (.definition hd)
      intro d' hd'
      rw [hd] at hd'
      cases hd'
      exact haccepts
  | anyOf members =>
    obtain ⟨before, first, after, rfl, -, hfirst⟩ := fit_anyOf_eq_ok h
    have hmem : first ∈ before ++ first :: after := by simp
    refine (ih first hmem w (hpart first hmem) hfirst).imp ?_ (.member hmem)
    exact fun haccepts => (accepts_anyOf_of_writable hresolve.hasWritableLiterals
      hs.hasWritableLiterals).mpr ⟨first, hmem, haccepts⟩
  | optional s =>
    rw [fit_eq, fitNode, ← fit_eq] at h
    split at h
    · cases h
      exact .inl (accepts_optional.mpr (.inl rfl))
    · have hinner : s ∈ (Schema.optional s).parts := by simp [Schema.parts]
      refine (ih s hinner w (hpart s hinner) h).imp ?_ .optional
      exact fun haccepts => accepts_optional.mpr (.inr haccepts)

/-- **A union takes what one of its members takes, by the first member that does not refuse it.**
Where a member takes a value and accepts its fit, all members before the first that fits are
misfits, the union makes of the value what that first one makes of it, and accepts this, unless the
first one stands before the accepting one and its fit lacks a key or has an unknown word. No string
in the value may spell a whole number of more than 4300 digits, and neither a number in the value
nor a literal may be one. -/
theorem fit_anyOf_of_member {members : List Schema} {m : Schema} (hresolve : resolve.IsFittable)
    (hs : Schema.IsFittable (.anyOf members)) (hv : v.HasShortNumerals) (hm : m ∈ members)
    (hfit : fit resolve v m = .ok w) (hcheck : check resolve w m = .ok ()) :
    ∃ before first after u, members = before ++ first :: after ∧
      (∀ x ∈ before, ∃ e, fit resolve v x = .error e ∧ e.isMisfit = true) ∧
      fit resolve v first = .ok u ∧ fit resolve v (.anyOf members) = .ok u ∧
      (check resolve u (.anyOf members) = .ok () ∨ m ∈ after ∧ Lacks resolve u first) := by
  obtain ⟨u, hu⟩ := exists_fit_anyOf hresolve hs hv hm hfit
  obtain ⟨before, first, after, rfl, hbefore, hfirst⟩ := fit_anyOf_eq_ok hu
  refine ⟨before, first, after, u, rfl, hbefore, hfirst, hu, ?_⟩
  have hmem : first ∈ before ++ first :: after := by simp
  have haccepts_iff := fun u => accepts_anyOf_of_writable (v := u) hresolve.hasWritableLiterals
    hs.hasWritableLiterals
  rcases List.mem_append.mp hm with hearlier | hlater
  · obtain ⟨e, he, -⟩ := hbefore m hearlier
    rw [hfit] at he
    cases he
  · rcases List.mem_cons.mp hlater with rfl | hlater
    · rw [hfit] at hfirst
      cases hfirst
      exact .inl ((haccepts_iff w).mpr ⟨m, hmem, hcheck⟩)
    · rcases accepts_or_lacks hresolve v first u (hs.of_mem_parts hmem) hfirst with
        haccepts | hlacks
      · exact .inl ((haccepts_iff u).mpr ⟨first, hmem, haccepts⟩)
      · exact .inr ⟨hlater, hlacks⟩

/-- A list is refused by the first member, and taken by the second before the third, which accepts
it, is asked. -/
theorem fit_anyOf_of_member_words :
    let m : Schema := .array (.enum ["4", "x"] [])
    let members : List Schema := [.int, .array (.optional .string), m]
    let v : Value := .array [.int 4, .str "x"]
    let resolve : Resolver := fun _ => none
    (Schema.anyOf members).IsFittable ∧ v.HasShortNumerals ∧
      fit resolve v m = .ok (.array [.str "4", .str "x"]) ∧
      check resolve (.array [.str "4", .str "x"]) m = .ok () ∧
      ∃ before first after u, members = before ++ first :: after ∧
        (∀ x ∈ before, ∃ e, fit resolve v x = .error e ∧ e.isMisfit = true) ∧
        fit resolve v first = .ok u ∧ fit resolve v (.anyOf members) = .ok u ∧
        (check resolve u (.anyOf members) = .ok () ∨ m ∈ after ∧ Lacks resolve u first) := by
  intro m members v resolve
  have hresolve : resolve.IsFittable := by
    intro name d h
    cases h
  have hs : (Schema.anyOf members).IsFittable := rfl
  have hv : v.HasShortNumerals := by
    show v.everywhere Value.hasShortNumeral = true
    decide +kernel
  have hfit : fit resolve v m = .ok (.array [.str "4", .str "x"]) := by cbv
  have hcheck : check resolve (.array [.str "4", .str "x"]) m = .ok () := by cbv
  exact ⟨hs, hv, hfit, hcheck,
    fit_anyOf_of_member hresolve hs hv (by simp [members]) hfit hcheck⟩

/-- **A union may refuse what a later member accepts.** A number is no word of the enum in front,
and an object in front asks for a key that is not there; both take the value, and the check of what
they made of it fails, though the member behind would have accepted its own fit. -/
theorem fit_anyOf_of_earlier :
    let resolve : Resolver := fun _ => none
    let words : List Schema := [.enum ["A"] [], .int]
    let object : Schema := .object [("x", .int)] ["x"] none []
    let objects : List Schema := [.object [("x", .string)] ["x", "y"] none [], object]
    let v : Value := .map [("x", .int 5)]
    let w : Value := .map [("x", .str "5")]
    (fit resolve (.int 5) .int = .ok (.int 5) ∧ check resolve (.int 5) .int = .ok () ∧
      fit resolve (.int 5) (.anyOf words) = .ok (.str "5") ∧
      (check resolve (.str "5") (.anyOf words)).isOk = false) ∧
    (fit resolve v object = .ok v ∧ check resolve v object = .ok () ∧
      fit resolve v (.anyOf objects) = .ok w ∧
      (check resolve w (.anyOf objects)).isOk = false) := by
  refine ⟨⟨?_, ?_, ?_, ?_⟩, ?_, ?_, ?_, ?_⟩ <;> cbv

end ShapedReply
