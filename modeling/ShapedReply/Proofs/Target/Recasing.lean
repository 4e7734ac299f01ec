import Mathlib
import ShapedReply.Proofs.Schema.Walk
import ShapedReply.Proofs.Target.Renaming
import ShapedReply.Target.Decode

/-!
# Decoding does not see key styles

Restyling walks down a value by the target on its own, and a validator walks down the result. This
file shows where the two meet: **a value whose keys at models are field names decodes to the same
result after some of the keys have been put in camel case, if keys are restyled**
(`decode_of_recased`). The restyled value is the value with the field names, but for the order of
the keys at models (`reordered_restyle`). So the validator may be any one that does not see that
order (`Validator.IgnoresKeyOrder`), however it converts what it finds; the one of this library is
such a validator (`ignoresKeyOrder_decodeAsIs`).

The two walks part at a choice with null. Restyling goes through such a choice only if the other
member is a model; a list, a table or a row of models that may be null is left as it is, and keys in
camel case are refused there (`decode_camel_in_optional_list`).

* `Target.HasWordKeys`: the targets in question.
* `Recased through`: a value with some of its keys at models in camel case, where `through` says
  which choices with null are gone through.
* `Reordered`: a value with the keys at models in another order.
* `decoded_reordered`: decoding looks fields up by name, so the order of the keys does not count
  (`decodeModel_congr`).
-/

namespace ShapedReply

open KeyStyle Restyle

namespace Target

/-- Null and one other target, in either order. -/
def IsOptional (t : Target) (members : List Target) : Prop :=
  members = [t, .nothing] ∨ members = [.nothing, t]

/-- A list or a row whose items have one target. -/
def IsArrayOf (array t : Target) : Prop :=
  array = .list t ∨ array = .rowOf t

/-- Targets that are built from scalars and from models with word names by lists, rows, values of
tables and choices with null. -/
inductive HasWordKeys : Target → Prop
  | text : HasWordKeys .text
  | integer : HasWordKeys .integer
  | number : HasWordKeys .number
  | truth : HasWordKeys .truth
  | nothing : HasWordKeys .nothing
  | list {t : Target} (h : HasWordKeys t) : HasWordKeys (.list t)
  | rowOf {t : Target} (h : HasWordKeys t) : HasWordKeys (.rowOf t)
  | table {t : Target} (key : Target) (h : HasWordKeys t) : HasWordKeys (.table key t)
  | optional {t : Target} {members : List Target} (barred : Bool) (hmembers : t.IsOptional members)
      (h : HasWordKeys t) : HasWordKeys (.union barred members)
  | model {info : ClassInfo} {options : ModelOptions} {fields : List (FieldInfo × Target)}
      (names : HasWordNames fields) (types : ∀ f ∈ fields, HasWordKeys f.2) :
      HasWordKeys (.model info options fields)
  | selfOrNothing : HasWordKeys .selfOrNothing
  | listOfSelf : HasWordKeys .listOfSelf

/-- Whether restyling goes into a value: into the items of an array for a list or a row, or into the
entries of a map for a table, a model or a choice with a model. -/
def goesInto : Target → Value → Bool
  | .list _, .array _ | .rowOf _, .array _ | .table .., .map _ | .model .., .map _ => true
  | .union _ members, .map _ => members.any isModel
  | _, _ => false

/-- The type of a field inside its model is one of the targets in question. -/
theorem HasWordKeys.inside {info : ClassInfo} {options : ModelOptions}
    {fields : List (FieldInfo × Target)} (h : HasWordKeys (.model info options fields))
    {f : FieldInfo × Target} (hf : f ∈ fields) :
    HasWordKeys (Target.inside (.model info options fields) f.2) := by
  cases h with
  | model names types =>
    have hmodel : HasWordKeys (.model info options fields) := .model names types
    have htype := types f hf
    generalize f.2 = t at htype
    cases htype with
    | selfOrNothing => exact .optional true (.inl rfl) hmodel
    | listOfSelf => exact .list hmodel
    | text => exact .text
    | integer => exact .integer
    | number => exact .number
    | truth => exact .truth
    | nothing => exact .nothing
    | list h => exact .list h
    | rowOf h => exact .rowOf h
    | table key h => exact .table key h
    | optional barred hmembers h => exact .optional barred hmembers h
    | model names types => exact .model names types

/-- The items of a list or a row have one of the targets in question. -/
theorem HasWordKeys.of_isArrayOf {array t : Target} (h : HasWordKeys array)
    (harray : array.IsArrayOf t) : HasWordKeys t := by
  rcases harray with rfl | rfl
  · cases h with | list h => exact h
  · cases h with | rowOf h => exact h

/-- None of the targets in question takes anything. -/
theorem HasWordKeys.isAnything {t : Target} (h : HasWordKeys t) : t.isAnything = false := by
  cases h <;> rfl

end Target

open Target

/-- The keys of a map are names of fields, each at most once, and those of another map spell
them. -/
structure SpellsKeys (fields : List (FieldInfo × Target)) (es fs : Table Value) : Prop where
  /-- No key is there twice. -/
  nodup : es.names.Nodup
  /-- Keys are names of fields. -/
  known : ∀ name ∈ es.names, name ∈ fields.map (·.1.name)
  /-- The maps have equally many entries. -/
  length : fs.length = es.length
  /-- Place by place, the keys of the one spell those of the other. -/
  spells : ∀ (i : Nat) (e f : String × Value), es[i]? = some e → fs[i]? = some f → Spells f.1 e.1

/-- A value with some of its keys at models in camel case, also behind the choices with null that
`through` lets through. -/
inductive Recased (through : Target → Bool) : Target → Value → Value → Prop
  | same {t : Target} {v : Value} (h : t.goesInto v = false) : Recased through t v v
  | array {array t : Target} {xs ys : List Value} (harray : array.IsArrayOf t)
      (length : ys.length = xs.length)
      (items : ∀ (i : Nat) (x y : Value), xs[i]? = some x → ys[i]? = some y →
        Recased through t x y) :
      Recased through array (.array xs) (.array ys)
  | table {key t : Target} {es fs : Table Value} (names : fs.names = es.names)
      (values : ∀ (i : Nat) (e f : String × Value), es[i]? = some e → fs[i]? = some f →
        Recased through t e.2 f.2) :
      Recased through (.table key t) (.map es) (.map fs)
  | model {info : ClassInfo} {options : ModelOptions} {fields : List (FieldInfo × Target)}
      {es fs : Table Value} (keys : SpellsKeys fields es fs)
      (values : ∀ (i : Nat) (e f : String × Value) (field : FieldInfo × Target), es[i]? = some e →
        fs[i]? = some f → field ∈ fields → field.1.name = e.1 →
          Recased through (Target.inside (.model info options fields) field.2) e.2 f.2) :
      Recased through (.model info options fields) (.map es) (.map fs)
  | optional {t : Target} {members : List Target} {v w : Value} (barred : Bool)
      (hmembers : t.IsOptional members) (hthrough : through t = true) (h : Recased through t v w) :
      Recased through (.union barred members) v w

/-- A value with the keys at models in another order, also behind choices between a model and null.
The keys are names of fields, each at most once. -/
inductive Reordered : Target → Value → Value → Prop
  | refl (t : Target) (v : Value) : Reordered t v v
  | array {array t : Target} {xs ys : List Value} (harray : array.IsArrayOf t)
      (length : ys.length = xs.length)
      (items : ∀ (i : Nat) (x y : Value), xs[i]? = some x → ys[i]? = some y → Reordered t x y) :
      Reordered array (.array xs) (.array ys)
  | table {key t : Target} {es fs : Table Value} (names : fs.names = es.names)
      (values : ∀ (i : Nat) (e f : String × Value), es[i]? = some e → fs[i]? = some f →
        Reordered t e.2 f.2) :
      Reordered (.table key t) (.map es) (.map fs)
  | model {info : ClassInfo} {options : ModelOptions} {fields : List (FieldInfo × Target)}
      {es fs : Table Value} (nodup : es.names.Nodup)
      (known : ∀ name ∈ es.names, name ∈ fields.map (·.1.name)) (perm : fs.names.Perm es.names)
      (values : ∀ (e f : String × Value) (field : FieldInfo × Target), e ∈ es → f ∈ fs →
        field ∈ fields → f.1 = e.1 → field.1.name = e.1 →
          Reordered (Target.inside (.model info options fields) field.2) e.2 f.2) :
      Reordered (.model info options fields) (.map es) (.map fs)
  | optional {t : Target} {members : List Target} {v w : Value} (barred : Bool)
      (hmembers : t.IsOptional members) (hmodel : t.isModel = true) (h : Reordered t v w) :
      Reordered (.union barred members) v w

/-- A validator does not see the order of the keys at models. -/
def Validator.IgnoresKeyOrder {α : Type} (validate : Validator α) : Prop :=
  ∀ (t : Target) (v w : Value), t.HasWordKeys → Reordered t v w → validate w t = validate v t

/-! ## The two walks -/

/-- Decoding a value as it is. -/
def decoded (v : Value) (t : Target) : Option Decoded :=
  v.fold Decode.node t

/-- A value on its way through decoding. -/
def decodedPart (v : Value) : Decode.Waiting := ⟨v, decoded v⟩

/-- A value on its way through restyling. -/
def restyledPart (v : Value) : Restyle.Waiting := ⟨v, restyle v⟩

/-- Decoding, by what the parts of the value decode to. -/
theorem decoded_eq (v : Value) (t : Target) :
    decoded v t = Decode.node v (v.items.map decodedPart)
      (v.fields.map fun e => (e.1, decodedPart e.2)) t := by
  unfold decoded
  rw [Value.fold_eq]
  rfl

/-- Restyling, by what the parts of the value are restyled to. -/
theorem restyle_eq (v : Value) (t : Target) :
    restyle v t = Restyle.node v (v.items.map restyledPart)
      (v.fields.map fun e => (e.1, restyledPart e.2)) t := by
  unfold restyle
  rw [Value.fold_eq]
  rfl

/-- Where restyling does not go into a value, the value is kept. -/
theorem restyle_of_not_goesInto {t : Target} (ht : t.HasWordKeys) {v : Value}
    (h : t.goesInto v = false) : restyle v t = v := by
  rw [restyle_eq]
  cases ht with
  | list _ | rowOf _ =>
    cases v with
    | array _ => cases h
    | _ => rfl
  | table _ _ | model _ _ =>
    cases v with
    | map _ => cases h
    | _ => rfl
  | @optional t members barred hmembers _ =>
    rw [Restyle.node]
    split
    · next model hmodel =>
      cases v with
      | map _ =>
        have hmem : model ∈ members.filter Target.isModel := hmodel ▸ List.mem_singleton_self model
        have hnone := List.any_eq_false.mp h model (List.mem_of_mem_filter hmem)
        exact absurd (List.of_mem_filter hmem) hnone
      | _ => rfl
    · rfl
  | _ => rfl

/-- The items of an array decode one by one. -/
theorem decodeItems_eq (t : Target) (xs : List Value) :
    Decode.decodeItems t (xs.map decodedPart) = (xs.map (decoded · t)).mapM id := by
  rw [Decode.decodeItems, List.mapM_map, List.mapM_map]
  rfl

/-- Two lists are alike to functions that agree place by place. -/
theorem map_eq_map_of_getElem? {α β γ : Type} {f : α → γ} {g : β → γ} {xs : List α} {ys : List β}
    (length : ys.length = xs.length)
    (h : ∀ (i : Nat) (x : α) (y : β), xs[i]? = some x → ys[i]? = some y → g y = f x) :
    ys.map g = xs.map f := by
  refine List.ext_getElem (by simpa using length) fun i hi hj => ?_
  rw [List.getElem_map, List.getElem_map]
  rw [List.length_map] at hi hj
  exact h i _ _ (List.getElem?_eq_getElem hj) (List.getElem?_eq_getElem hi)

/-! ## Models -/

section Model

variable {model : Target} {options : ModelOptions} {fields : List (FieldInfo × Target)}
  {entries entries' : List (String × Decode.Waiting)}

/-- What a field is found under, and what it decodes to. -/
def fieldFound (model : Target) (options : ModelOptions) (entries : List (String × Decode.Waiting))
    (f : FieldInfo × Target) : Option (String × Option Decoded) :=
  (Decode.findField options f.1 entries).map fun e => (e.1, e.2.answer (Target.inside model f.2))

/-- Decoding fields depends on what each field is found under and decodes to. -/
theorem decodeFields_congr
    (h : ∀ f ∈ fields, fieldFound model options entries f = fieldFound model options entries' f) :
    Decode.decodeFields model options entries fields =
      Decode.decodeFields model options entries' fields := by
  induction fields with
  | nil => rfl
  | cons f fields ih =>
    obtain ⟨info, t⟩ := f
    obtain ⟨hfirst, hlater⟩ := List.forall_mem_cons.mp h
    rw [Decode.decodeFields, Decode.decodeFields, ih hlater]
    unfold fieldFound at hfirst
    rcases hfound : Decode.findField options info entries with _ | ⟨k, p⟩ <;>
      rcases hfound' : Decode.findField options info entries' with _ | ⟨k', p'⟩ <;>
      simp only [hfound, hfound', Option.map_some, Option.map_none, reduceCtorEq,
        Option.some.injEq, Prod.mk.injEq] at hfirst
    · rfl
    · simp only [hfirst.1, hfirst.2]

/-- Decoding a map into a model depends on its keys and on what its fields decode to. -/
theorem decodeModel_congr {es fs : Table Value}
    (hkeys : (entries.map (·.1)).Perm (entries'.map (·.1)))
    (h : ∀ f ∈ fields, fieldFound model options entries f = fieldFound model options entries' f) :
    Decode.decodeModel (.map es) entries model options fields =
      Decode.decodeModel (.map fs) entries' model options fields := by
  -- A closed model refuses keys that no field was found under, wherever they stand.
  have hany (p : String → Bool) : (entries.any fun e => p e.1) = entries'.any fun e => p e.1 := by
    have hnames := hkeys.any_eq (f := p)
    rwa [List.any_map, List.any_map] at hnames
  simp only [Decode.decodeModel, decodeFields_congr h]
  refine congrArg _ (funext fun found => ?_)
  simp only [hany fun k => !(found.filterMap (·.2.2)).any (·.1 == k)]

/-- A field that is given by its name is found under its name, and nowhere else. -/
theorem findField_of_key_eq {f : FieldInfo} (hkey : f.key = f.name) :
    Decode.findField options f entries = entries.find? (·.1 == f.name) := by
  rw [Decode.findField, hkey]
  cases entries.find? (·.1 == f.name) with
  | none => simp
  | some e => rfl

/-- A field that is there under its name is found. -/
theorem fieldFound_of_mem {f : FieldInfo × Target} (hkey : f.1.key = f.1.name)
    (hnodup : (entries.map (·.1)).Nodup) {p : Decode.Waiting} (hmem : (f.1.name, p) ∈ entries) :
    fieldFound model options entries f = some (f.1.name, p.answer (Target.inside model f.2)) := by
  have hfind : entries.find? (·.1 == f.1.name) = some (f.1.name, p) := by
    obtain ⟨before, after, rfl⟩ := List.append_of_mem hmem
    rw [List.map_append, List.map_cons] at hnodup
    have hbefore : before.find? (·.1 == f.1.name) = none := by
      rw [List.find?_eq_none]
      intro e he heq
      exact (List.nodup_append.mp hnodup).2.2 _ (List.mem_map_of_mem he) _ List.mem_cons_self
        (beq_iff_eq.mp heq)
    rw [List.find?_append, hbefore, Option.none_or, List.find?_cons_of_pos (by simp)]
  rw [fieldFound, findField_of_key_eq hkey, hfind]
  rfl

/-- A field that is not there under its name is not found. -/
theorem fieldFound_of_not_mem {f : FieldInfo × Target} (hkey : f.1.key = f.1.name)
    (hmissing : f.1.name ∉ entries.map (·.1)) : fieldFound model options entries f = none := by
  have hfind : entries.find? (·.1 == f.1.name) = none := by
    rw [List.find?_eq_none]
    intro e he heq
    exact hmissing (List.mem_map.mpr ⟨e, he, beq_iff_eq.mp heq⟩)
  rw [fieldFound, findField_of_key_eq hkey, hfind]
  rfl

end Model

section Fields

variable {info : ClassInfo} {options : ModelOptions} {fields : List (FieldInfo × Target)}
  {es fs : Table Value}

/-- The value of a renamed entry, restyled by the type of its field. -/
def restyledBy (model : Target) (fields : List (FieldInfo × Target))
    (e : String × Restyle.Waiting) : Value :=
  match Table.get? (types fields) e.1 with
  | some t => e.2.answer (Target.inside model t)
  | none => e.2.value

/-- The value of a field is restyled by its type. -/
theorem restyledBy_field (names : HasWordNames fields) (model : Target) {f : FieldInfo × Target}
    (hf : f ∈ fields) (v : Value) :
    restyledBy model fields (f.1.name, restyledPart v) = restyle v (Target.inside model f.2) := by
  rw [restyledBy, names.get?_types hf]
  rfl

/-- Snake style finds the names that the keys spell. -/
theorem SpellsKeys.snakeKey_eq (keys : SpellsKeys fields es fs) (names : HasWordNames fields)
    (i : Nat) (e f : String × Value) (he : es[i]? = some e) (hf : fs[i]? = some f) :
    snakeKey f.1 = e.1 := by
  have hmem : e.1 ∈ es.names := List.mem_map_of_mem (List.mem_of_getElem? he)
  obtain ⟨field, hfield, hname⟩ := List.mem_map.mp (keys.known e.1 hmem)
  exact snakeKey_of_spells (hname ▸ names.words field hfield) (keys.spells i e f he hf)

/-- A map whose keys spell field names has these names after restyling, with the values restyled by
the types of the fields. -/
theorem exists_restyle_model (info : ClassInfo) (options : ModelOptions)
    (names : HasWordNames fields) (keys : SpellsKeys fields es fs) :
    ∃ rs : Table Value, restyle (.map fs) (.model info options fields) = .map rs ∧
      rs.names.Perm es.names ∧
      ∀ (i : Nat) (e f : String × Value), es[i]? = some e → fs[i]? = some f →
        ∀ field ∈ fields, field.1.name = e.1 →
          (e.1, restyle f.2 (Target.inside (.model info options fields) field.2)) ∈ rs := by
  have hsnake := keys.snakeKey_eq names
  have hnames : fs.map (fun f => snakeKey f.1) = es.names :=
    map_eq_map_of_getElem? keys.length hsnake
  have hsnaked : snaked (fs.map fun f => (f.1, restyledPart f.2)) =
      fs.map fun f => (snakeKey f.1, restyledPart f.2) := by
    rw [snaked, List.map_map]
    rfl
  have hspelled : ∀ e ∈ fs.map fun f => (f.1, restyledPart f.2),
      snakeKey e.1 ∈ fields.map (·.1.name) := by
    intro e he
    obtain ⟨f, hf, rfl⟩ := List.mem_map.mp he
    exact keys.known _ (hnames ▸ List.mem_map_of_mem hf)
  have hnodup : (Table.names (snaked (fs.map fun f => (f.1, restyledPart f.2)))).Nodup := by
    rw [hsnaked, Table.names, List.map_map]
    exact hnames.symm ▸ keys.nodup
  have hperm := perm_renamed names hspelled hnodup
  rw [hsnaked] at hperm
  refine ⟨_, restyle_eq _ _, ?_, ?_⟩
  · rw [Table.names, List.map_map, ← hnames]
    refine (hperm.map Prod.fst).trans ?_
    rw [List.map_map]
    exact .refl _
  · intro i e f he hf field hfield hname
    refine List.mem_map.mpr ⟨(e.1, restyledPart f.2), hperm.mem_iff.mpr ?_, ?_⟩
    · exact List.mem_map.mpr ⟨f, List.mem_of_getElem? hf, by rw [hsnake i e f he hf]⟩
    · rw [← hname, ← restyledBy_field names _ hfield]
      rfl

/-- Decoding a map into a model does not depend on the order of its keys. -/
theorem decoded_model_congr (names : HasWordNames fields) (nodup : es.names.Nodup)
    (perm : fs.names.Perm es.names)
    (values : ∀ (e f : String × Value) (field : FieldInfo × Target), e ∈ es → f ∈ fs →
      field ∈ fields → f.1 = e.1 → field.1.name = e.1 →
        decoded f.2 (Target.inside (.model info options fields) field.2) =
          decoded e.2 (Target.inside (.model info options fields) field.2)) :
    decoded (.map fs) (.model info options fields) =
      decoded (.map es) (.model info options fields) := by
  have hkeys (t : Table Value) : (t.map fun e => (e.1, decodedPart e.2)).map (·.1) = t.names := by
    rw [List.map_map]
    rfl
  have hpart {t : Table Value} {e : String × Value} {name : String} (he : e ∈ t)
      (hname : e.1 = name) : (name, decodedPart e.2) ∈ t.map fun e => (e.1, decodedPart e.2) :=
    hname ▸ List.mem_map_of_mem he
  rw [decoded_eq, decoded_eq]
  refine decodeModel_congr ?_ fun field hfield => ?_
  · rw [Value.fields, Value.fields, hkeys, hkeys]
    exact perm
  · have hkey := names.key_eq hfield
    rw [Value.fields, Value.fields]
    by_cases hgiven : field.1.name ∈ es.names
    · obtain ⟨e, he, hname⟩ := List.mem_map.mp hgiven
      obtain ⟨f, hf, hname'⟩ := List.mem_map.mp (perm.mem_iff.mpr hgiven)
      rw [fieldFound_of_mem hkey ((hkeys es).symm ▸ nodup) (hpart he hname),
        fieldFound_of_mem hkey ((hkeys fs).symm ▸ perm.nodup_iff.mpr nodup) (hpart hf hname')]
      exact congrArg (fun d => some (field.1.name, d))
        (values e f field he hf hfield (hname'.trans hname.symm) hname.symm)
    · rw [fieldFound_of_not_mem hkey, fieldFound_of_not_mem hkey]
      · rwa [hkeys]
      · rwa [hkeys, perm.mem_iff]

end Fields

/-! ## Arrays, tables and choices with null -/

/-- The items of two arrays decode alike if they do so place by place. -/
theorem decodeItems_congr {t : Target} {xs ys : List Value} (length : ys.length = xs.length)
    (items : ∀ (i : Nat) (x y : Value), xs[i]? = some x → ys[i]? = some y →
      decoded y t = decoded x t) :
    Decode.decodeItems t (ys.map decodedPart) = Decode.decodeItems t (xs.map decodedPart) := by
  rw [decodeItems_eq, decodeItems_eq]
  exact congrArg _ (map_eq_map_of_getElem? length items)

/-- The items of an array are restyled one by one. -/
theorem restyle_items {array t : Target} (harray : array.IsArrayOf t) (ys : List Value) :
    restyle (.array ys) array = .array (ys.map (restyle · t)) := by
  rw [restyle_eq]
  rcases harray with rfl | rfl
  all_goals
    simp only [Restyle.node, Restyle.byItem, Value.items, List.map_map]
    rfl

/-- The values of a table are restyled one by one. -/
theorem restyle_table (es : Table Value) (key t : Target) :
    restyle (.map es) (.table key t) = .map (es.map fun e => (e.1, restyle e.2 t)) := by
  rw [restyle_eq, Restyle.node, Value.fields, List.map_map]
  rfl

/-- Decoding a table depends on its names and on what its values decode to. -/
theorem decoded_table (es : Table Value) (key t : Target) :
    decoded (.map es) (.table key t) =
      (es.names.mapM fun name => Decode.node (.str name) [] [] key).bind fun keys =>
        ((es.map fun e => decoded e.2 t).mapM id).map
          (Decode.gather (fun vs => .map (es.names.zip vs))
            (keys.foldl (fun c k => c.min k.closeness) .exact) false) := by
  rw [decoded_eq, Decode.node, Table.names, List.mapM_map, List.mapM_map]
  simp only [Value.fields, List.mapM_map, List.map_map, Option.bind_eq_bind, Option.map_eq_bind]
  rfl

/-- A map against a model or null is a map against the model. -/
theorem decoded_optional_congr {t : Target} {members : List Target} (barred : Bool)
    (hmembers : t.IsOptional members) {es rs : Table Value}
    (h : decoded (.map rs) t = decoded (.map es) t) :
    decoded (.map rs) (.union barred members) = decoded (.map es) (.union barred members) := by
  have hchoice (ms : Table Value) : decoded (.map ms) (.union barred members) =
      Decode.best none (members.map (decoded (.map ms))) := by
    rcases hmembers with rfl | rfl
    all_goals
      simp only [List.map_cons, List.map_nil, decoded_eq]
      rfl
  have hnothing (ms : Table Value) : decoded (.map ms) .nothing = none := by
    rw [decoded_eq]
    rfl
  rw [hchoice, hchoice]
  rcases hmembers with rfl | rfl
  all_goals simp only [List.map_cons, List.map_nil, hnothing, h]

/-- Restyling goes through a choice between a model and null. -/
theorem restyle_optional {t : Target} {members : List Target} (barred : Bool)
    (hmembers : t.IsOptional members) (hmodel : t.isModel = true) (w : Value) :
    restyle w (.union barred members) = restyle w t := by
  have hfilter : members.filter Target.isModel = [t] := by
    rcases hmembers with rfl | rfl
    · rw [List.filter_cons_of_pos hmodel]
      rfl
    · exact (List.filter_cons_of_neg (by decide)).trans (List.filter_cons_of_pos hmodel)
  rw [restyle_eq, restyle_eq, Restyle.node, hfilter]
  cases t with
  | model info options fields => rfl
  | _ => cases hmodel

/-- Where the order of keys at a model differs there stand maps. -/
theorem Reordered.eq_or_maps {t : Target} {v w : Value} (h : Reordered t v w)
    (hmodel : t.isModel = true) : w = v ∨ ∃ es fs : Table Value, v = .map es ∧ w = .map fs := by
  cases h with
  | refl => exact .inl rfl
  | @model _ _ _ es fs => exact .inr ⟨es, fs, rfl, rfl⟩
  | array harray _ _ =>
    rcases harray with rfl | rfl
    all_goals cases hmodel
  | _ => cases hmodel

/-- One of the two targets is null, so a model that may be null is the other one. -/
theorem Target.HasWordKeys.of_optional {t : Target} {barred : Bool} {members : List Target}
    (h : HasWordKeys (.union barred members)) (hmembers : t.IsOptional members)
    (hmodel : t.isModel = true) : HasWordKeys t := by
  cases h with
  | optional _ hmembers' h =>
    rcases hmembers with rfl | rfl <;> rcases hmembers' with heq | heq <;> cases heq
    · exact h
    · exact .nothing
    · exact .nothing
    · exact h

/-! ## Decoding restyled values -/

variable {t : Target} {v w : Value}

/-- **Restyling undoes camel case**, but for the order of the keys at models. -/
theorem reordered_restyle (h : Recased Target.isModel t v w) (ht : t.HasWordKeys) :
    Reordered t v (restyle w t) := by
  induction h with
  | same hkept =>
    rw [restyle_of_not_goesInto ht hkept]
    exact .refl _ _
  | @array array t xs ys harray length _ ih =>
    rw [restyle_items harray]
    refine .array harray (by rwa [List.length_map]) fun i x y hx hy => ?_
    rw [List.getElem?_map, Option.map_eq_some_iff] at hy
    obtain ⟨z, hz, rfl⟩ := hy
    exact ih i x z hx hz (ht.of_isArrayOf harray)
  | @table key t es fs names _ ih =>
    cases ht with
    | table _ ht =>
      rw [restyle_table]
      refine .table ?_ fun i e f he hf => ?_
      · rw [← names, Table.names, List.map_map]
        rfl
      · rw [List.getElem?_map, Option.map_eq_some_iff] at hf
        obtain ⟨g, hg, rfl⟩ := hf
        exact ih i e g he hg ht
  | @model info options fields es fs keys _ ih =>
    have hmodel := ht
    cases ht with
    | model names _ =>
      obtain ⟨rs, hrestyle, hperm, hmem⟩ := exists_restyle_model info options names keys
      rw [hrestyle]
      refine .model keys.nodup keys.known hperm fun e r field he hr hfield hkey hname => ?_
      obtain ⟨i, hi⟩ := List.getElem?_of_mem he
      have hlt : i < fs.length := keys.length ▸ (List.getElem?_eq_some_iff.mp hi).1
      have hf : fs[i]? = some fs[i] := List.getElem?_eq_getElem hlt
      -- The entry under this name is the restyled one, since the names are distinct.
      have hentry := hmem i e fs[i] hi hf field hfield hname
      obtain rfl := List.inj_on_of_nodup_map (hperm.nodup_iff.mpr keys.nodup) hr hentry hkey
      exact ih i e fs[i] field hi hf hfield hname (hmodel.inside hfield)
  | @optional t members v w barred hmembers hmodel _ ih =>
    rw [restyle_optional barred hmembers hmodel]
    exact .optional barred hmembers hmodel (ih (ht.of_optional hmembers hmodel))

/-- **Decoding does not see the order of the keys at models.** -/
theorem decoded_reordered (h : Reordered t v w) (ht : t.HasWordKeys) :
    decoded w t = decoded v t := by
  induction h with
  | refl => rfl
  | @array array t xs ys harray length _ ih =>
    have hitem := ht.of_isArrayOf harray
    have hitems := decodeItems_congr length fun i x y hx hy => ih i x y hx hy hitem
    rw [decoded_eq, decoded_eq]
    rcases harray with rfl | rfl
    · simp only [Decode.node, hitem.isAnything, Bool.false_eq_true, if_false, Value.items, hitems]
    · simp only [Decode.node, Value.items, hitems]
  | @table key t es fs names _ ih =>
    cases ht with
    | table _ ht =>
      have hlength : fs.length = es.length := by
        simpa [Table.names] using congrArg List.length names
      have hvalues : fs.map (fun f => decoded f.2 t) = es.map fun e => decoded e.2 t :=
        map_eq_map_of_getElem? hlength fun i e f he hf => ih i e f he hf ht
      rw [decoded_table, decoded_table, names, hvalues]
  | model nodup _ perm _ ih =>
    have hmodel := ht
    cases ht with
    | model names _ =>
      exact decoded_model_congr names nodup perm fun e f field he hf hfield hkey hname =>
        ih e f field he hf hfield hkey hname (hmodel.inside hfield)
  | @optional t members v w barred hmembers hmodel h ih =>
    rcases h.eq_or_maps hmodel with rfl | ⟨es, fs, rfl, rfl⟩
    · rfl
    · exact decoded_optional_congr barred hmembers (ih (ht.of_optional hmembers hmodel))

/-- The validator of this library does not see the order of the keys at models. -/
theorem ignoresKeyOrder_decodeAsIs : Validator.IgnoresKeyOrder decodeAsIs? := fun _ _ _ ht h =>
  congrArg (Option.map Decoded.value) (decoded_reordered h ht)

/-- A value is decoded as it is to what the validator makes of it. -/
theorem decodeInto_false_eq_ok_iff {α : Type} {validate : Validator α} {r : α} :
    decodeInto validate v t false = .ok r ↔ validate v t = some r := by
  rw [decodeInto]
  cases h : validate v t <;> simp [h]

/-- A restyled value that is valid is what is decoded. -/
theorem decodeInto_true_of_restyle {α : Type} {validate : Validator α} {r : α}
    (h : validate (restyle v t) t = some r) : decodeInto validate v t true = .ok r := by
  simp [decodeInto, h]

/-- **Key styles do not count for decoding.** Take a value with field names for keys, and the same
value after some of its keys have been put in camel case, at any depth in lists, rows, tables and
models and behind choices between a model and null. Restyled, the second one is the first one, but
for the order of the keys at models; so it decodes to what the first one decodes to as it is, with
any validator that does not see that order. -/
theorem decode_of_recased (ht : t.HasWordKeys) (hw : Recased Target.isModel t v w) :
    Reordered t v (restyle w t) ∧
      ∀ {α : Type} (validate : Validator α), validate.IgnoresKeyOrder →
        ∀ r, decodeInto validate v t false = .ok r → decodeInto validate w t true = .ok r := by
  have hrestyled := reordered_restyle hw ht
  refine ⟨hrestyled, fun validate hvalidate r hr => ?_⟩
  have hvalid := decodeInto_false_eq_ok_iff.mp hr
  exact decodeInto_true_of_restyle ((hvalidate t v _ ht hrestyled).trans hvalid)

/-- A model with one field. -/
def guest : Target :=
  .model { identity := "Guest", name := "Guest" } {} [({ name := "first_name" }, .text)]

/-- A model with models in an optional field, in a list and in itself. -/
def party : Target :=
  .model { identity := "Party", name := "Party" } {}
    [({ name := "main_guest" }, .union true [guest, .nothing]),
      ({ name := "all_guests" }, .list guest),
      ({ name := "after_party", fallback := some .null }, .selfOrNothing)]

/-- The name of the field is made of words. -/
theorem hasWordKeys_guest : guest.HasWordKeys := by
  refine .model ⟨by decide, by decide, ?_⟩ ?_
  · intro f hf
    rw [List.mem_singleton.mp hf]
    exact ⟨["first".toList, "name".toList], by decide, by decide, by decide⟩
  · intro f hf
    rw [List.mem_singleton.mp hf]
    exact .text

/-- The names of the fields are made of words. -/
theorem hasWordKeys_party : party.HasWordKeys := by
  refine .model ⟨by decide, by decide, ?_⟩ ?_
  · intro f hf
    simp only [List.mem_cons, List.not_mem_nil, or_false] at hf
    rcases hf with rfl | rfl | rfl
    · exact ⟨["main".toList, "guest".toList], by decide, by decide, by decide⟩
    · exact ⟨["all".toList, "guests".toList], by decide, by decide, by decide⟩
    · exact ⟨["after".toList, "party".toList], by decide, by decide, by decide⟩
  · intro f hf
    simp only [List.mem_cons, List.not_mem_nil, or_false] at hf
    rcases hf with rfl | rfl | rfl
    · exact .optional true (.inl rfl) hasWordKeys_guest
    · exact .list hasWordKeys_guest
    · exact .selfOrNothing

/-- The key of the field may be spelled in either style. -/
theorem recased_guest (through : Target → Bool) {key : String} (h : Spells key "first_name")
    (s : String) :
    Recased through guest (.map [("first_name", .str s)]) (.map [(key, .str s)]) := by
  refine .model ⟨List.nodup_singleton _, fun name hname => hname, rfl, ?_⟩ ?_
  · rintro (_ | i) e f he hf
    · cases he
      cases hf
      exact h
    · cases he
  · rintro (_ | i) e f field he hf hfield -
    · cases he
      cases hf
      rw [List.mem_singleton.mp hfield]
      exact .same rfl
    · cases he

/-- One word after the other. -/
theorem spells_firstName : Spells "firstName" "first_name" :=
  .inr ⟨["first".toList, "name".toList], by decide, by decide, by decide⟩

/-- Keys in camel case in the model, in its optional field and in one of two places in its list. -/
theorem decode_of_recased_party :
    let ann : Value := .map [("first_name", .str "Ann")]
    let ben : Value := .map [("first_name", .str "Ben")]
    let ann' : Value := .map [("firstName", .str "Ann")]
    let v : Value := .map [("main_guest", ann), ("all_guests", .array [ann, ben])]
    let w : Value := .map [("mainGuest", ann'), ("all_guests", .array [ann', ben])]
    let r : Value :=
      .map [("main_guest", ann), ("all_guests", .array [ann, ben]), ("after_party", .null)]
    party.HasWordKeys ∧ Recased Target.isModel party v w ∧
      Validator.IgnoresKeyOrder decodeAsIs? ∧ decode v (some party) false = .ok r ∧
        decode w (some party) true = .ok r := by
  intro ann ben ann' v w r
  have hann : Recased Target.isModel guest ann ann' := recased_guest _ spells_firstName "Ann"
  have hben : Recased Target.isModel guest ben ben := recased_guest _ (.inl rfl) "Ben"
  have hguests : Recased Target.isModel (.list guest) (.array [ann, ben]) (.array [ann', ben]) := by
    refine .array (.inl rfl) rfl ?_
    rintro (_ | _ | i) x y hx hy
    · cases hx
      cases hy
      exact hann
    · cases hx
      cases hy
      exact hben
    · cases hx
  have hw : Recased Target.isModel party v w := by
    refine .model ⟨by decide, by decide, rfl, ?_⟩ ?_
    · rintro (_ | _ | i) e f he hf
      · cases he
        cases hf
        exact .inr ⟨["main".toList, "guest".toList], by decide, by decide, by decide⟩
      · cases he
        cases hf
        exact .inl rfl
      · cases he
    · rintro (_ | _ | i) e f field he hf hfield hname
      · cases he
        cases hf
        simp only [List.mem_cons, List.not_mem_nil, or_false] at hfield
        rcases hfield with rfl | rfl | rfl
        · exact .optional true (.inl rfl) rfl hann
        · exact absurd hname (by decide)
        · exact absurd hname (by decide)
      · cases he
        cases hf
        simp only [List.mem_cons, List.not_mem_nil, or_false] at hfield
        rcases hfield with rfl | rfl | rfl
        · exact absurd hname (by decide)
        · exact hguests
        · exact absurd hname (by decide)
      · cases he
  have hv : decode v (some party) false = .ok r := by cbv
  have hcamel :=
    (decode_of_recased hasWordKeys_party hw).2 decodeAsIs? ignoresKeyOrder_decodeAsIs r hv
  exact ⟨hasWordKeys_party, hw, ignoresKeyOrder_decodeAsIs, hv, hcamel⟩

/-- A list of models that may be null is not gone through. A value that decodes with the name of the
field for a key keeps the same key in camel case when it is restyled, so no validator gets to see
the name of the field; and the value is refused. -/
theorem decode_camel_in_optional_list :
    let t : Target := .union true [.list guest, .nothing]
    let v : Value := .array [.map [("first_name", .str "Ann")]]
    let w : Value := .array [.map [("firstName", .str "Ann")]]
    t.HasWordKeys ∧ Recased (fun _ => true) t v w ∧ decode v (some t) false = .ok v ∧
      restyle w t = w ∧ decode w (some t) true = .error ⟨t.name⟩ := by
  intro t v w
  have ht : t.HasWordKeys := .optional true (.inl rfl) (.list hasWordKeys_guest)
  have hw : Recased (fun _ => true) (.list guest) v w := by
    refine .array (.inl rfl) rfl ?_
    rintro (_ | i) x y hx hy
    · cases hx
      cases hy
      exact recased_guest _ spells_firstName "Ann"
    · cases hx
  have hv : decode v (some t) false = .ok v := by cbv
  have hrefused : decodeAsIs? w t = none := by cbv
  have hkept : restyle w t = w := restyle_of_not_goesInto ht rfl
  have hcamel : decode w (some t) true = .error ⟨t.name⟩ := by
    simp only [decode, decodeInto, hkept, if_true, List.cons_append, List.nil_append,
      List.findSome?_cons, List.findSome?_nil, hrefused]
  exact ⟨ht, .optional true (.inl rfl) rfl hw, hv, hkept, hcamel⟩

end ShapedReply
