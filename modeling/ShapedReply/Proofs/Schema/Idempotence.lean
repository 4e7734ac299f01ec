import ShapedReply.Proofs.Catalog.Exchange
import ShapedReply.Proofs.Schema.Skeleton

/-!
# A fit is fitted to itself

Without unions, fitting a second time changes nothing, not even the order of keys. Each rule takes
values to values that it leaves as they are.

* `enumMember_enumMember`: the member that a word means, means itself. This is where other spellings
  have to lead to values: one that leads elsewhere may lead on from there.
* `fitObject_fitted`: the fit of a map has the declared keys in their order and the others behind
  them, so the second pass finds each field where it looks for it.
* `fit_of_fit`: **a fit is fitted to itself**, by induction on the value and on the schema. A union
  would break this: what one member makes of a value may be taken by a member before it.
* `fit_fit`: the same for a catalog, where enums are sound and classes are tables by construction.
-/

namespace ShapedReply

open Check Fit Outcome

/-! ## Settled schemas -/

namespace Schema

/-- Whether the other spellings of an enum lead to its values. -/
def hasSoundAliases : Schema → Bool
  | .enum values aliases => aliases.all fun a => values.contains a.2
  | _ => true

/-- The other spellings of an enum are sound if they lead to its values. -/
theorem hasSoundAliases_enum {values : List String} {aliases : List (String × String)} :
    hasSoundAliases (.enum values aliases) = true ↔ ∀ a ∈ aliases, a.2 ∈ values := by
  simp [hasSoundAliases]

/-- A schema without unions, with spelled literals only, and with enums whose other spellings lead
to their values, at every depth. The properties of an object schema are a table, so their names do
not repeat. -/
structure IsSettled (s : Schema) : Prop where
  /-- There are no unions, and literals are spelled. -/
  direct : s.IsDirect
  /-- Other spellings lead to values. -/
  sound : s.everywhere hasSoundAliases = true

/-- What is asked of a settled schema, its parts apart. -/
theorem isSettled_iff {s : Schema} :
    s.IsSettled ↔ (s.isUnion = false ∧ s.hasSpelledLiteral = true ∧ s.hasDistinctNames = true ∧
      s.hasSoundAliases = true) ∧ ∀ x ∈ s.parts, x.IsSettled := by
  constructor
  · rintro ⟨hdirect, hsound⟩
    obtain ⟨hnode, hparts⟩ := everywhere_iff.mp hdirect
    obtain ⟨haliases, hinside⟩ := everywhere_iff.mp hsound
    simp only [Bool.and_eq_true, Bool.not_eq_true'] at hnode
    exact ⟨⟨hnode.1.1, hnode.1.2, hnode.2, haliases⟩, fun x hx => ⟨hparts x hx, hinside x hx⟩⟩
  · rintro ⟨⟨hunion, hliteral, hnames, haliases⟩, hparts⟩
    refine ⟨everywhere_iff.mpr ⟨?_, fun x hx => (hparts x hx).direct⟩,
      everywhere_iff.mpr ⟨haliases, fun x hx => (hparts x hx).sound⟩⟩
    simp [hunion, hliteral, hnames]

/-- The parts of a settled schema are settled. -/
theorem IsSettled.of_mem_parts {s x : Schema} (h : s.IsSettled) (hx : x ∈ s.parts) : x.IsSettled :=
  (isSettled_iff.mp h).2 x hx

/-- The other spellings of a settled enum lead to its values. -/
theorem IsSettled.aliases {values : List String} {aliases : List (String × String)}
    (h : IsSettled (.enum values aliases)) : ∀ a ∈ aliases, a.2 ∈ values :=
  hasSoundAliases_enum.mp (everywhere_self h.sound)

end Schema

/-- A resolver that knows settled definitions only. -/
def Resolver.IsSettled (resolve : Resolver) : Prop :=
  ∀ name d, resolve name = some d → d.toSchema.IsSettled

variable {resolve : Resolver} {v w : Value} {s : Schema}

/-! ## Enums -/

variable {values : List String} {aliases : List (String × String)}

/-- A word is taken as it is, or for a value. -/
theorem enumMember_eq_or_mem (hsound : ∀ a ∈ aliases, a.2 ∈ values) (t : String) :
    enumMember values aliases t = t ∨ enumMember values aliases t ∈ values := by
  unfold enumMember
  split
  · exact .inl rfl
  split
  · next value hspelled => exact .inr (hsound _ (Table.mem_of_get? hspelled))
  dsimp only
  split
  · next value hfolded => exact .inr (List.mem_of_find?_eq_some hfolded)
  split
  · next a hfolded => exact .inr (hsound a (List.mem_of_find?_eq_some hfolded))
  · exact .inl rfl

/-- **The member that a word means, means itself.** -/
theorem enumMember_enumMember (hsound : ∀ a ∈ aliases, a.2 ∈ values) (t : String) :
    enumMember values aliases (enumMember values aliases t) = enumMember values aliases t := by
  rcases enumMember_eq_or_mem hsound t with hsame | hmem
  · rw [hsame]
    exact hsame
  · exact enumMember_of_isMember (.inr hmem)

/-- A fitted value of an enum fits as it is. -/
theorem toEnum_fitted (hsound : ∀ a ∈ aliases, a.2 ∈ values) (h : toEnum values aliases v = .ok w) :
    toEnum values aliases w = .ok w := by
  obtain ⟨t, -, rfl⟩ := map_eq_ok_iff.mp h
  exact congrArg (fun m => Except.ok (Value.str m)) (enumMember_enumMember hsound t)

/-! ## Scalars -/

/-- A fitted double is finite. -/
theorem isFinite_of_toDouble {x : Double} (h : toDouble s v = .ok x) : x.isFinite = true := by
  unfold toDouble at h
  split at h
  · split at h
    · next hfinite =>
      cases h
      exact hfinite
    · cases h
  · cases h

/-- The fit of a scalar is fitted to itself. -/
theorem fit_fitted_of_isAtomic (hatomic : s.isAtomic = true) (hs : s.IsSettled)
    (h : fit resolve v s = .ok w) : fit resolve w s = .ok w := by
  rw [fit_eq] at h
  cases s with
  | string =>
    obtain ⟨t, -, rfl⟩ := map_eq_ok_iff.mp h
    exact fit_eq _ _
  | int =>
    obtain ⟨n, -, rfl⟩ := map_eq_ok_iff.mp h
    exact fit_eq _ _
  | float =>
    obtain ⟨x, hx, rfl⟩ := map_eq_ok_iff.mp h
    exact fit_float rfl (isFinite_of_toDouble hx)
  | bool =>
    obtain ⟨b, -, rfl⟩ := map_eq_ok_iff.mp h
    exact fit_eq _ _
  | enum values aliases =>
    rw [fit_eq]
    exact toEnum_fitted hs.aliases h
  | literal expected =>
    have hspelled := (Schema.isSettled_iff.mp hs).1.2.1
    obtain rfl := eq_of_toLiteral hspelled h
    rw [fit_eq]
    exact toLiteral_of_isLiteral hspelled (isLiteral_toValue hspelled)
  | null | array _ | map _ _ | object _ _ _ _ | ref _ | external _ | anyOf _ | optional _ =>
    cases hatomic

/-! ## Containers -/

variable {properties : Table Schema} {additional : Option Schema} {ds us : Table Value}

/-- Declared fields are found again where they stand in their order, and stay if they are fitted to
themselves. -/
theorem fitDeclared_fitted {fs : Table Value} (hnames : ds.names = properties.names.filter fs.has)
    (hget : ∀ d ∈ ds, fs.get? d.1 = some d.2)
    (hfixed : ∀ d ∈ ds, ∀ s, (d.1, s) ∈ properties → fit resolve d.2 s = .ok d.2) :
    fitDeclared (fs.map (Fit.waitingField resolve)) properties = .ok ds := by
  induction properties generalizing ds with
  | nil =>
    rw [List.map_eq_nil_iff.mp hnames]
    rfl
  | cons p properties ih =>
    obtain ⟨name, s⟩ := p
    have hrest : ∀ d ∈ ds, ∀ s, (d.1, s) ∈ properties → fit resolve d.2 s = .ok d.2 :=
      fun d hd s hs => hfixed d hd s (List.mem_cons_of_mem _ hs)
    have hlookup : (fs.map (Fit.waitingField resolve)).lookup name =
        (Table.get? fs name).map (Fit.waiting resolve) :=
      Table.get?_mapEntries (Fit.waiting resolve) fs name
    rw [Table.names_cons, List.filter_cons, Table.has] at hnames
    rw [fitDeclared, hlookup]
    rcases hfound : Table.get? fs name with _ | x
    · rw [hfound] at hnames
      exact ih hnames hget hrest
    · rw [hfound] at hnames
      obtain ⟨d, ds, rfl, rfl, hds⟩ := List.map_eq_cons_iff.mp hnames
      rw [List.forall_mem_cons] at hget hrest
      have hx : x = d.2 := Option.some.inj (hfound.symm.trans hget.1)
      have hself : fit resolve x s = .ok d.2 :=
        hx ▸ hfixed d List.mem_cons_self s List.mem_cons_self
      exact bind_eq_ok_iff.mpr
        ⟨d.2, under_eq_ok.mpr hself, bind_eq_ok_iff.mpr ⟨ds, ih hds hget.2 hrest.2, rfl⟩⟩

/-- Undeclared fields stay if they are fitted to themselves, or if nothing is said about them. -/
theorem fitUndeclared_fitted
    (h : ∀ u ∈ us, ∀ s, additional = some s → fit resolve u.2 s = .ok u.2) :
    fitUndeclared additional (us.map (Fit.waitingField resolve)) = .ok us := by
  cases additional with
  | some s =>
    apply fitEntries_eq_ok_iff.mpr
    apply List.forall₂_same.mpr
    exact fun u hu => ⟨rfl, h u hu s rfl⟩
  | none =>
    rw [fitUndeclared, List.map_map]
    exact congrArg Except.ok (List.map_id us)

/-- The undeclared fields of a map with declared ones before them. -/
theorem filter_undeclared (hds : ∀ d ∈ ds, properties.has d.1 = true)
    (hus : ∀ u ∈ us, properties.has u.1 = false) :
    ((ds ++ us).map (Fit.waitingField resolve)).filter (fun f => !properties.has f.1) =
      us.map (Fit.waitingField resolve) := by
  have hdeclared : ds.filter (fun e => !properties.has e.1) = [] := by
    rw [List.filter_eq_nil_iff]
    intro d hd
    simp [hds d hd]
  have hfree : us.filter (fun e => !properties.has e.1) = us := by
    rw [List.filter_eq_self]
    intro u hu
    simp [hus u hu]
  rw [List.filter_map]
  refine congrArg (List.map _) ?_
  rw [List.filter_append]
  exact congrArg₂ (· ++ ·) hdeclared hfree

/-- **The fit of a map to an object schema is fitted to itself** when the fits of its fields are. -/
theorem fitObject_fitted {es : Table Value} (hnames : properties.names.Nodup)
    (hfields : ∀ f ∈ es, ∀ x ∈ properties.map (·.2) ++ additional.toList, ∀ y,
      fit resolve f.2 x = .ok y → fit resolve y x = .ok y)
    (h : fitObject properties additional (.map es) (es.map (Fit.waitingField resolve)) = .ok w) :
    fitObject properties additional w (w.fields.map (Fit.waitingField resolve)) = .ok w := by
  obtain ⟨ds, hds, h⟩ := bind_eq_ok_iff.mp h
  obtain ⟨us, hus, h⟩ := bind_eq_ok_iff.mp h
  cases h
  have hdeclared := names_fitDeclared hds
  have hfree := names_fitUndeclared hus
  have hdsHas : ∀ d ∈ ds, properties.has d.1 = true := by
    intro d hd
    have hname : d.1 ∈ Table.names ds := List.mem_map_of_mem hd
    rw [hdeclared] at hname
    exact Table.has_iff.mpr (List.mem_filter.mp hname).1
  have husHas : ∀ u ∈ us, properties.has u.1 = false := by
    intro u hu
    have hname : u.1 ∈ Table.names us := List.mem_map_of_mem hu
    rw [hfree] at hname
    simpa using (List.mem_filter.mp hname).2
  -- the declared names of the fit are those of the map
  have hagain : Table.names ds = properties.names.filter (Table.has (ds ++ us)) := by
    rw [hdeclared]
    apply List.filter_congr
    intro name hname
    have happend : Table.names (ds ++ us) = Table.names ds ++ Table.names us := List.map_append
    rw [Bool.eq_iff_iff, Table.has_iff (t := ds ++ us), happend, hdeclared, hfree]
    simp [hname, Table.has_iff.mpr hname]
  have hget : ∀ d ∈ ds, Table.get? (ds ++ us) d.1 = some d.2 := by
    intro d hd
    have hnodup : (Table.names ds).Nodup := hdeclared ▸ hnames.filter _
    rw [Table.get?, List.lookup_append, Table.get?_of_mem hnodup hd]
    rfl
  have hfirst : fitDeclared ((ds ++ us).map (Fit.waitingField resolve)) properties = .ok ds := by
    apply fitDeclared_fitted hagain hget
    intro d hd s hs
    obtain ⟨p, hp, e, he, hpd, -, hfit⟩ := mem_fitDeclared hds d hd
    have hp' := Table.get?_of_mem hnames hp
    rw [hpd, Table.get?_of_mem hnames hs] at hp'
    obtain rfl := Option.some.inj hp'
    exact hfields e he _ (List.mem_append_left _ (List.mem_map_of_mem hs)) d.2 hfit
  have hothers : fitUndeclared additional (us.map (Fit.waitingField resolve)) = .ok us := by
    apply fitUndeclared_fitted
    rintro u hu s rfl
    obtain ⟨e, he, -, -, hfit⟩ := mem_fitUndeclared hus u hu
    exact hfields e he s (List.mem_append_right _ (List.mem_singleton_self s)) u.2 hfit
  rw [← filter_undeclared hdsHas husHas] at hothers
  exact bind_eq_ok_iff.mpr ⟨ds, hfirst, bind_eq_ok_iff.mpr ⟨us, hothers, rfl⟩⟩

/-- A fitted object fits as it is, if so do its fields. -/
theorem fit_fitted_object {required : List String} {descriptions : List (String × Value)}
    (hs : Schema.IsSettled (.object properties required additional descriptions))
    (hfields : ∀ f ∈ v.fields, ∀ x ∈ properties.map (·.2) ++ additional.toList, ∀ y,
      fit resolve f.2 x = .ok y → fit resolve y x = .ok y)
    (h : fit resolve v (.object properties required additional descriptions) = .ok w) :
    fit resolve w (.object properties required additional descriptions) = .ok w := by
  rw [fit_eq, fitNode] at h ⊢
  cases v with
  | map es => exact fitObject_fitted hs.direct.object.1 hfields h
  | null | bool _ | int _ | float _ | str _ | array _ => cases h

/-! ## Values -/

/-- **A fit is fitted to itself.** -/
theorem fit_of_fit (hresolve : resolve.IsSettled) (v : Value) :
    ∀ (s : Schema) (w : Value), s.IsSettled → fit resolve v s = .ok w →
      fit resolve w s = .ok w := by
  induction v using Value.ind with
  | step v hitems hfields =>
  intro s
  induction s using Schema.ind with
  | step s ih =>
  intro w hs h
  have hpart (x : Schema) (hx : x ∈ s.parts) : x.IsSettled := hs.of_mem_parts hx
  cases s with
  | null =>
    rw [fit_eq, fitNode] at h
    split at h
    · cases h
      exact fit_eq _ _
    · cases h
  | array s =>
    have hinner := hpart s (List.mem_singleton_self s)
    obtain ⟨xs, ws, rfl, rfl, hall⟩ := fit_array_eq_ok_iff.mp h
    refine fit_array_eq_ok_iff.mpr ⟨ws, ws, rfl, rfl, List.forall₂_same.mpr ?_⟩
    intro y hy
    obtain ⟨x, hx, hfit⟩ := exists_mem_of_forall₂ hall y hy
    exact hitems x hx s y hinner hfit
  | map key s =>
    have hinner := hpart s (List.mem_cons_of_mem key (List.mem_singleton_self s))
    obtain ⟨es, fs, rfl, rfl, hall⟩ := fit_map_eq_ok_iff.mp h
    refine fit_map_eq_ok_iff.mpr ⟨fs, fs, rfl, rfl, List.forall₂_same.mpr ?_⟩
    intro f hf
    obtain ⟨e, he, -, hfit⟩ := exists_mem_of_forall₂ hall f hf
    exact ⟨rfl, hfields e he s f.2 hinner hfit⟩
  | object properties required additional descriptions =>
    exact fit_fitted_object hs (fun f hf x hx y => hfields f hf x y (hpart x hx)) h
  | ref name =>
    rcases hd : resolve name with _ | d
    · rw [fit_eq, fitNode, hd]
    · have hdefinition := hresolve name d hd
      rw [fit_ref hd] at h ⊢
      cases d with
      | enum values aliases => exact fit_fitted_of_isAtomic rfl hdefinition h
      | object properties required descriptions =>
        exact fit_fitted_object hdefinition
          (fun f hf x hx y => hfields f hf x y (hdefinition.of_mem_parts hx)) h
  | external name => exact fit_eq _ _
  | anyOf members => cases (Schema.isSettled_iff.mp hs).1.1
  | optional s =>
    have hinner : s ∈ (Schema.optional s).parts := List.mem_singleton_self s
    rw [fit_eq, fitNode, ← fit_eq] at h ⊢
    split at h
    · cases h
      rfl
    · split
      · next hnull => rw [hnull]
      · exact ih s hinner w (hpart s hinner) h
  | string | int | float | bool | enum _ _ | literal _ => exact fit_fitted_of_isAtomic rfl hs h

/-! ## Catalogs -/

namespace Catalog

variable {c : Catalog}

/-- What a consistent catalog knows is settled if its parts are: enums are sound and classes are
tables. -/
theorem IsConsistent.isSettled_of_resolve (hc : c.IsConsistent) {name : String} {d : Definition}
    (hd : c.resolve name = some d) (hparts : ∀ x ∈ d.toSchema.parts, x.IsSettled) :
    d.toSchema.IsSettled := by
  refine Schema.isSettled_iff.mpr ⟨?_, hparts⟩
  have hsound := hc.isSound_of_resolve hd
  have hdistinct := hc.isDistinct_of_resolve hd
  cases d with
  | enum values aliases => exact ⟨rfl, rfl, rfl, Schema.hasSoundAliases_enum.mpr hsound⟩
  | object properties required descriptions => exact ⟨rfl, rfl, decide_eq_true hdistinct, rfl⟩

/-- **A fit is fitted to itself**, in the order of its keys as well, by every catalog and schema in
which no union occurs, literals are strings, whole numbers or truth values, and the other spellings
of enums that are written out in schemas lead to their values. -/
theorem fit_fit (hreached : c.IsReached)
    (hdefinitions : ∀ e ∈ c.definitions, ∀ x ∈ e.2.toSchema.parts, x.IsSettled) (hs : s.IsSettled)
    (h : fit c.resolve v s = .ok w) : fit c.resolve w s = .ok w := by
  have hresolve : Resolver.IsSettled c.resolve := by
    intro name d hd
    exact hreached.isConsistent.isSettled_of_resolve hd
      (hdefinitions (name, d) (Table.mem_of_get? hd))
  exact fit_of_fit hresolve v s w hs h

/-- Boxes in boxes, with a color that has another spelling. -/
def boxes : Catalog :=
  (([.addValues "Color" [{ value := "red", spelling := some "crimson" }, { value := "blue" }],
      .addProperties "Box" [{ name := "color", schema := .ref "Color" },
        { name := "inside", schema := .optional (.ref "Box") }]] :
    List Archive.Operation).foldl Archive.after {}).current

/-- Colors in other spellings, at two depths, and keys in another order. -/
theorem fit_fit_boxes :
    let v : Value := .array [.map [("label", .int 3), ("inside", .map [("color", .str " BLUE ")]),
      ("color", .str "Crimson")]]
    let w : Value := .array [.map [("color", .str "red"), ("inside", .map [("color", .str "blue")]),
      ("label", .int 3)]]
    boxes.IsReached ∧ (∀ e ∈ boxes.definitions, ∀ x ∈ e.2.toSchema.parts, x.IsSettled) ∧
      fit boxes.resolve v (.array (.ref "Box")) = .ok w ∧
      fit boxes.resolve w (.array (.ref "Box")) = .ok w := by
  intro v w
  have hreached : boxes.IsReached := ⟨_, rfl⟩
  have hdefinitions : ∀ e ∈ boxes.definitions, ∀ x ∈ e.2.toSchema.parts, x.IsSettled := by
    have hdirect : (boxes.definitions.all fun e => e.2.toSchema.parts.all (Schema.everywhere
        fun n => !n.isUnion && n.hasSpelledLiteral && n.hasDistinctNames)) = true := by cbv
    have hsound : (boxes.definitions.all fun e =>
        e.2.toSchema.parts.all (Schema.everywhere Schema.hasSoundAliases)) = true := by cbv
    simp only [List.all_eq_true] at hdirect hsound
    exact fun e he x hx => ⟨hdirect e he x hx, hsound e he x hx⟩
  have hs : Schema.IsSettled (.array (.ref "Box")) := ⟨rfl, rfl⟩
  have hfit : fit boxes.resolve v (.array (.ref "Box")) = .ok w := by cbv
  exact ⟨hreached, hdefinitions, hfit, fit_fit hreached hdefinitions hs hfit⟩

/-- A union takes a whole double for a number, and the number for a truth value. -/
example : fit (fun _ => none) (.float (Double.ofInt 1)) (.anyOf [.bool, .int]) = .ok (.int 1) ∧
    fit (fun _ => none) (.int 1) (.anyOf [.bool, .int]) = .ok (.bool true) := by
  decide +kernel

end Catalog

end ShapedReply
