import ShapedReply.Proofs.Schema.Unions

/-!
# A fit keeps the shape of a value

A fit changes scalars and the order of keys, and nothing else. Whatever the schema, a map becomes a
map with the same keys, an array an array of the same length, null stays null, and a scalar that is
not null stays one.

* `SameSkeleton`: two values that differ in their scalars and in the order of their keys only.
* `Arranges`: how a schema arranges a value. It follows the schema that meets the value at each
  place: the definition of a name, the member that a union takes. In a map that meets an object
  schema the declared keys come first, in the order of their declaration, and the others follow in
  theirs, unchanged if the schema says nothing about them.
* `arranges_of_fit`: **a fit arranges a value**, by induction on the value and on the schema.
* `Arranges.sameSkeleton`: **what is arranged keeps its skeleton**, by induction on the arrangement.
-/

namespace ShapedReply

open Check Fit Outcome

/-! ## Skeletons -/

/-- Whether a value is a scalar other than null. -/
def Value.isAtom : Value → Bool
  | .bool _ | .int _ | .float _ | .str _ => true
  | _ => false

/-- Whether a schema asks for a scalar other than null. -/
def Schema.isAtomic : Schema → Bool
  | .string | .int | .float | .bool | .enum .. | .literal _ => true
  | _ => false

/-- Values with the same containers: arrays of the same length and maps with the same keys, null in
the same places, and other scalars in the same places. -/
inductive SameSkeleton : Value → Value → Prop
  | null : SameSkeleton .null .null
  | atom {v w : Value} (hv : v.isAtom = true) (hw : w.isAtom = true) : SameSkeleton v w
  | array {xs ws : List Value} (length : ws.length = xs.length)
      (items : ∀ (i : Nat) (x w : Value), xs[i]? = some x → ws[i]? = some w → SameSkeleton x w) :
      SameSkeleton (.array xs) (.array ws)
  | map {es fs : Table Value} (names : fs.names.Perm es.names)
      (fields : ∀ (name : String) (x y : Value), es.get? name = some x → fs.get? name = some y →
        SameSkeleton x y) :
      SameSkeleton (.map es) (.map fs)

/-- A value has its own skeleton. -/
theorem SameSkeleton.refl (v : Value) : SameSkeleton v v := by
  induction v using Value.ind with
  | step v hitems hfields =>
  cases v with
  | null => exact .null
  | bool _ | int _ | float _ | str _ => exact .atom rfl rfl
  | array xs =>
    refine .array rfl ?_
    intro i x w hx hw
    obtain rfl := Option.some.inj (hx.symm.trans hw)
    exact hitems x (List.mem_of_getElem? hx)
  | map es =>
    refine .map (.refl _) ?_
    intro name x y hx hy
    obtain rfl := Option.some.inj (hx.symm.trans hy)
    exact hfields _ (Table.mem_of_get? hx)

/-! ## Arrangements -/

/-- How a schema arranges a value. -/
inductive Arranges (resolve : Resolver) : Schema → Value → Value → Prop
  | null : Arranges resolve .null .null .null
  | atom {s : Schema} {v w : Value} (hs : s.isAtomic = true) (hv : v.isAtom = true)
      (hw : w.isAtom = true) : Arranges resolve s v w
  | array {s : Schema} {xs ws : List Value} (length : ws.length = xs.length)
      (items : ∀ (i : Nat) (x w : Value), xs[i]? = some x → ws[i]? = some w →
        Arranges resolve s x w) :
      Arranges resolve (.array s) (.array xs) (.array ws)
  | map {key s : Schema} {es fs : Table Value} (names : fs.names = es.names)
      (fields : ∀ (name : String) (x y : Value), es.get? name = some x → fs.get? name = some y →
        Arranges resolve s x y) :
      Arranges resolve (.map key s) (.map es) (.map fs)
  | object {properties : Table Schema} {required : List String} {additional : Option Schema}
      {descriptions : List (String × Value)} {es fs : Table Value}
      (names : fs.names = properties.names.filter es.has ++ es.names.filter (!properties.has ·))
      (fields : ∀ (name : String) (s : Schema) (x y : Value),
        fieldSchema properties additional name = some s →
        es.get? name = some x → fs.get? name = some y → Arranges resolve s x y)
      (others : ∀ name : String, fieldSchema properties additional name = none →
        fs.get? name = es.get? name) :
      Arranges resolve (.object properties required additional descriptions) (.map es) (.map fs)
  | known {name : String} {d : Definition} {v w : Value} (hd : resolve name = some d)
      (h : Arranges resolve d.toSchema v w) : Arranges resolve (.ref name) v w
  | unknown {name : String} {v : Value} (hd : resolve name = none) :
    Arranges resolve (.ref name) v v
  | external (name : String) (v : Value) : Arranges resolve (.external name) v v
  | member {members : List Schema} {s : Schema} {v w : Value} (hs : s ∈ members)
      (taken : fit resolve v s = .ok w) (h : Arranges resolve s v w) :
      Arranges resolve (.anyOf members) v w
  | absent (s : Schema) : Arranges resolve (.optional s) .null .null
  | optional {s : Schema} {v w : Value} (h : Arranges resolve s v w) :
      Arranges resolve (.optional s) v w

/-- The properties of every object schema in a schema are a table, in which no name stands twice. -/
def Schema.HasDistinctNames (s : Schema) : Prop :=
  s.everywhere hasDistinctNames = true

/-- The parts of a schema with distinct names have distinct names. -/
theorem Schema.HasDistinctNames.of_mem_parts {s x : Schema} (h : s.HasDistinctNames)
    (hx : x ∈ s.parts) :
    x.HasDistinctNames :=
  (everywhere_iff.mp h).2 x hx

/-- An object with distinct names declares no property twice. -/
theorem Schema.HasDistinctNames.nodup {properties : List (String × Schema)} {required : List String}
    {additional : Option Schema} {descriptions : List (String × Value)}
    (h : HasDistinctNames (.object properties required additional descriptions)) :
    (Table.names properties).Nodup := by
  have := everywhere_self h
  simpa [hasDistinctNames] using this

/-- A resolver in whose definitions no name stands twice in a table of properties. -/
def Resolver.HasDistinctNames (resolve : Resolver) : Prop :=
  ∀ name d, resolve name = some d → d.toSchema.HasDistinctNames

variable {resolve : Resolver} {v w : Value} {s : Schema}

/-- **What is arranged keeps its skeleton.** -/
theorem Arranges.sameSkeleton (hresolve : resolve.HasDistinctNames) (h : Arranges resolve s v w)
    (hs : s.HasDistinctNames) (hv : v.HasDistinctKeys) : SameSkeleton v w := by
  induction h with
  | null => exact .null
  | atom _ hatom hfitted => exact .atom hatom hfitted
  | array length _ ih =>
    refine .array length ?_
    intro i x w hx hw
    have hpart := hs.of_mem_parts (List.mem_singleton_self _)
    exact ih i x w hx hw hpart ((Value.everywhere_iff.mp hv).2.1 x (List.mem_of_getElem? hx))
  | map names _ ih =>
    refine .map (names ▸ .refl _) ?_
    intro name x y hx hy
    have hpart := hs.of_mem_parts (List.mem_cons_of_mem _ (List.mem_singleton_self _))
    exact ih name x y hx hy hpart ((Value.everywhere_iff.mp hv).2.2 _ (Table.mem_of_get? hx))
  | @object properties required additional descriptions es fs names _ others ih =>
    obtain ⟨hself, -, hfields⟩ := Value.everywhere_iff.mp hv
    have hkeys : (Table.names es).Nodup := of_decide_eq_true hself
    refine .map (names ▸ perm_names_declared_first hs.nodup hkeys) ?_
    intro name x y hx hy
    rcases hbelongs : fieldSchema properties additional name with _ | s
    · rw [others name hbelongs, hx] at hy
      cases hy
      exact .refl x
    · exact ih name s x y hbelongs hx hy (hs.of_mem_parts (mem_parts_of_fieldSchema hbelongs))
        (hfields _ (Table.mem_of_get? hx))
  | known hd _ ih => exact ih (hresolve _ _ hd) hv
  | unknown => exact .refl _
  | external => exact .refl _
  | member hmember _ _ ih => exact ih (hs.of_mem_parts hmember) hv
  | absent => exact .null
  | optional _ ih => exact ih (hs.of_mem_parts (List.mem_singleton_self _)) hv

/-! ## Fits -/

/-- Only a value without parts has a text. -/
theorem isAtom_of_toText {t : String} (h : toText s v = .ok t) : v.isAtom = true := by
  cases v with
  | bool _ | int _ | float _ | str _ => rfl
  | null | array _ | map _ => cases h

/-- Only a value without parts is a whole number. -/
theorem isAtom_of_toInt {n : Int} (h : toInt s v = .ok n) : v.isAtom = true := by
  cases v with
  | bool _ | int _ | float _ | str _ => rfl
  | null | array _ | map _ => cases h

/-- Only a value without parts is a double. -/
theorem isAtom_of_toDouble {x : Double} (h : toDouble s v = .ok x) : v.isAtom = true := by
  cases v with
  | bool _ | int _ | float _ | str _ => rfl
  | null | array _ | map _ => cases h

/-- Only a value without parts is a truth value. -/
theorem isAtom_of_toBool {b : Bool} (h : Fit.toBool s v = .ok b) : v.isAtom = true := by
  cases v with
  | bool _ | int _ | float _ | str _ => rfl
  | null | array _ | map _ => cases h

/-- What fits a literal is a scalar other than null, as the literal is. -/
theorem isAtom_of_toLiteral {expected : Scalar} (h : toLiteral expected v = .ok w) :
    v.isAtom = true ∧ w.isAtom = true := by
  cases expected with
  | bool b =>
    obtain ⟨found, hfound, hw⟩ := bind_eq_ok_iff.mp h
    split at hw
    · cases hw
      exact ⟨isAtom_of_toBool hfound, rfl⟩
    · cases hw
  | int n =>
    obtain ⟨found, hfound, hw⟩ := bind_eq_ok_iff.mp h
    split at hw
    · cases hw
      exact ⟨isAtom_of_toInt hfound, rfl⟩
    · cases hw
  | str t =>
    obtain ⟨found, hfound, hw⟩ := bind_eq_ok_iff.mp h
    split at hw
    · cases hw
      exact ⟨isAtom_of_toText hfound, rfl⟩
    · cases hw
  | null | float _ =>
    -- such a literal takes nothing
    obtain ⟨-, -, hw⟩ := bind_eq_ok_iff.mp h
    cases hw

/-- A fit to a schema for scalars is one of a scalar, and gives one. -/
theorem isAtom_of_fit (hs : s.isAtomic = true) (h : fit resolve v s = .ok w) :
    v.isAtom = true ∧ w.isAtom = true := by
  rw [fit_eq] at h
  cases s with
  | string =>
    obtain ⟨t, ht, rfl⟩ := map_eq_ok_iff.mp h
    exact ⟨isAtom_of_toText ht, rfl⟩
  | int =>
    obtain ⟨n, hn, rfl⟩ := map_eq_ok_iff.mp h
    exact ⟨isAtom_of_toInt hn, rfl⟩
  | float =>
    obtain ⟨x, hx, rfl⟩ := map_eq_ok_iff.mp h
    exact ⟨isAtom_of_toDouble hx, rfl⟩
  | bool =>
    obtain ⟨b, hb, rfl⟩ := map_eq_ok_iff.mp h
    exact ⟨isAtom_of_toBool hb, rfl⟩
  | enum values aliases =>
    obtain ⟨t, ht, rfl⟩ := map_eq_ok_iff.mp h
    exact ⟨isAtom_of_toText ht, rfl⟩
  | literal expected => exact isAtom_of_toLiteral h
  | null | array _ | map _ _ | object _ _ _ _ | ref _ | external _ | anyOf _ | optional _ =>
    cases hs

/-- The fit of an array arranges it when the fits of its items arrange them. -/
theorem arranges_array
    (hitems : ∀ x ∈ v.items, ∀ y, fit resolve x s = .ok y → Arranges resolve s x y)
    (h : fit resolve v (.array s) = .ok w) : Arranges resolve (.array s) v w := by
  obtain ⟨xs, ws, rfl, rfl, hlength, hfit⟩ := getElem?_fit_array h
  refine .array hlength ?_
  intro i x y hx hy
  exact hitems x (List.mem_of_getElem? hx) y (hfit i x y hx hy)

/-- The fit of a map arranges it when the fits of its entries arrange them. -/
theorem arranges_map {key : Schema} (hkeys : (Table.names v.fields).Nodup)
    (hfields : ∀ f ∈ v.fields, ∀ y, fit resolve f.2 s = .ok y → Arranges resolve s f.2 y)
    (h : fit resolve v (.map key s) = .ok w) : Arranges resolve (.map key s) v w := by
  obtain ⟨es, fs, rfl, rfl, hnames, hfit⟩ := get?_fit_map hkeys h
  refine .map hnames ?_
  intro name x y hx hy
  exact hfields _ (Table.mem_of_get? hx) y (hfit name x y hx hy)

/-- The fit of a map to an object schema arranges it when the fits of its fields arrange them. -/
theorem arranges_object {properties : List (String × Schema)} {required : List String}
    {additional : Option Schema} {descriptions : List (String × Value)}
    (hnames : (Table.names properties).Nodup) (hkeys : (Table.names v.fields).Nodup)
    (hfields : ∀ f ∈ v.fields, ∀ x ∈ properties.map (·.2) ++ additional.toList, ∀ y,
      fit resolve f.2 x = .ok y → Arranges resolve x f.2 y)
    (h : fit resolve v (.object properties required additional descriptions) = .ok w) :
    Arranges resolve (.object properties required additional descriptions) v w := by
  rw [fit_eq, fitNode] at h
  cases v with
  | map es =>
    obtain ⟨fs, rfl, hfs, hfit, hothers⟩ := get?_fitObject hnames hkeys h
    refine .object hfs ?_ hothers
    intro name s x y hs hx hy
    have hpart : s ∈ (Schema.object properties required additional descriptions).parts :=
      mem_parts_of_fieldSchema hs
    exact hfields _ (Table.mem_of_get? hx) s hpart y (hfit name s x y hs hx hy)
  | null | bool _ | int _ | float _ | str _ | array _ => cases h

/-- **A fit arranges a value.** -/
theorem arranges_of_fit (hresolve : resolve.HasDistinctNames) (v : Value) :
    v.HasDistinctKeys → ∀ (s : Schema) (w : Value), s.HasDistinctNames →
      fit resolve v s = .ok w → Arranges resolve s v w := by
  induction v using Value.ind with
  | step v hitems hfields =>
  intro hv s
  obtain ⟨hself, hvitems, hvfields⟩ := Value.everywhere_iff.mp hv
  have hkeys : (Table.names v.fields).Nodup := by simpa using hself
  induction s using Schema.ind with
  | step s ih =>
  intro w hs h
  have hatom (hatomic : s.isAtomic = true) : Arranges resolve s v w := by
    obtain ⟨hv, hw⟩ := isAtom_of_fit hatomic h
    exact .atom hatomic hv hw
  cases s with
  | null =>
    rw [fit_eq, fitNode] at h
    split at h
    · next hnull =>
      cases h
      rw [hnull]
      exact .null
    · cases h
  | array s =>
    have hinner : s.HasDistinctNames := hs.of_mem_parts (List.mem_singleton_self s)
    exact arranges_array (fun x hx y => hitems x hx (hvitems x hx) s y hinner) h
  | map key s =>
    have hinner : s.HasDistinctNames :=
      hs.of_mem_parts (List.mem_cons_of_mem key (List.mem_singleton_self s))
    exact arranges_map hkeys (fun f hf y => hfields f hf (hvfields f hf) s y hinner) h
  | object properties required additional descriptions =>
    refine arranges_object hs.nodup hkeys ?_ h
    intro f hf x hx y
    exact hfields f hf (hvfields f hf) x y (hs.of_mem_parts hx)
  | ref name =>
    rcases hd : resolve name with _ | d
    · rw [fit_eq, fitNode, hd] at h
      cases h
      exact .unknown hd
    · have hdistinct := hresolve name d hd
      rw [fit_ref hd] at h
      refine .known hd ?_
      cases d with
      | enum values aliases =>
        obtain ⟨hv, hw⟩ := isAtom_of_fit rfl h
        exact .atom rfl hv hw
      | object properties required descriptions =>
        refine arranges_object hdistinct.nodup hkeys ?_ h
        intro f hf x hx y
        exact hfields f hf (hvfields f hf) x y (hdistinct.of_mem_parts hx)
  | external name =>
    rw [fit_eq, fitNode] at h
    cases h
    exact .external name v
  | anyOf members =>
    obtain ⟨before, first, after, rfl, -, hfirst⟩ := fit_anyOf_eq_ok h
    have hmem : first ∈ before ++ first :: after := by simp
    exact .member hmem hfirst (ih first hmem w (hs.of_mem_parts hmem) hfirst)
  | optional s =>
    rw [fit_eq, fitNode, ← fit_eq] at h
    split at h
    · next hnull =>
      cases h
      rw [hnull]
      exact .absent s
    · have hinner : s ∈ (Schema.optional s).parts := List.mem_singleton_self s
      exact .optional (ih s hinner w (hs.of_mem_parts hinner) h)
  | string | int | float | bool | enum _ _ | literal _ => exact hatom rfl

/-- **A fit keeps the shape of a value.** Whatever the schema and the catalog, unions and names
included, a map stays a map with the same keys, an array an array of the same length, place by
place, null stays null, and a scalar other than null stays one. In every map that meets an object
schema the declared keys come first, in the order of their declaration, and the other keys follow in
their own order, unchanged if the schema says nothing about them. -/
theorem sameSkeleton_and_arranges_of_fit (hresolve : resolve.HasDistinctNames)
    (hs : s.HasDistinctNames) (hv : v.HasDistinctKeys) (h : fit resolve v s = .ok w) :
    SameSkeleton v w ∧ Arranges resolve s v w := by
  have harranges := arranges_of_fit hresolve v hv s w hs h
  exact ⟨harranges.sameSkeleton hresolve hs hv, harranges⟩

/-- A catalog with one definition, which refers to itself. -/
def noteResolver : Resolver
  | "Note" => some (.object [("stars", .int), ("notes", .array (.ref "Note"))] ["stars"] [])
  | _ => none

/-- A note in a union, with a free key before the declared ones, which come in another order. -/
theorem sameSkeleton_and_arranges_note :
    let s : Schema := .optional (.anyOf [.int, .ref "Note"])
    let v : Value := .map [("text", .null), ("notes", .array [.map [("stars", .str " 2 ")]]),
      ("stars", .bool true)]
    let w : Value := .map [("stars", .int 1), ("notes", .array [.map [("stars", .int 2)]]),
      ("text", .null)]
    noteResolver.HasDistinctNames ∧ s.HasDistinctNames ∧ v.HasDistinctKeys ∧
      fit noteResolver v s = .ok w ∧ SameSkeleton v w ∧ Arranges noteResolver s v w := by
  intro s v w
  have hresolve : noteResolver.HasDistinctNames := by
    intro name d h
    unfold noteResolver at h
    split at h
    · cases h
      rfl
    · cases h
  have hs : s.HasDistinctNames := rfl
  have hv : v.HasDistinctKeys := by cbv
  have hfit : fit noteResolver v s = .ok w := by cbv
  exact ⟨hresolve, hs, hv, hfit, sameSkeleton_and_arranges_of_fit hresolve hs hv hfit⟩

end ShapedReply
