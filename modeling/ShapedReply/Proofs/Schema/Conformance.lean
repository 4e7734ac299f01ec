import ShapedReply.Proofs.Number.Rounding
import ShapedReply.Proofs.Schema.Acceptance
import ShapedReply.Proofs.Text.Trim

/-!
# What is accepted fits as it is

Fitting comes before checking and is far more generous, but the two are separate case analyses, and
a fit may take a value in another way than the check does: a union takes the first member that fits,
and that need not be the one that accepts. Still, **a value that the check accepts fits, and without
unions it fits as it is**, up to two changes (`fit_of_check`): whole numbers become doubles where
doubles are asked for, and the keys of objects may come in another order.

* `Value.IsModest`: what is asked of the value. Strings are not longer than a whole number may be
  spelled, so that no member of a union fails for good on the way, and numbers have finite doubles.
* `isMisfit_of_fit`: a fit of a value whose strings spell no number that is too long, and whose
  numbers can be written, fails by a misfit, after which a union goes on. The literals of the schema
  have to be writable too, since a misfit names the schema (`fit_of_check_unwritable`).
* `exists_fit`: what is accepted fits.
* `Keeps`: how a value may differ from its fit, one clause for each kind of schema, and
  `keeps_of_fit`.
-/

namespace ShapedReply

open Check Fit Outcome

/-! ## Values and schemas -/

namespace Value

/-- Whether a string is not longer than a whole number may be spelled, and a number has a finite
double. -/
def isModest : Value → Bool
  | .str t => decide (t.length ≤ maxIntegerDigits)
  | .int n => (Double.ofInt n).isFinite
  | .float x => x.isFinite
  | _ => true

/-- Whether a condition holds of a value and of every value inside it. -/
def everywhere (p : Value → Bool) (v : Value) : Bool :=
  v.fold fun v items fields => p v && items.all (·.answer) && fields.all (·.2.answer)

/-- A condition is met everywhere in a value when the value meets it and it is met everywhere in the
parts. -/
theorem everywhere_iff {p : Value → Bool} {v : Value} :
    v.everywhere p = true ↔ p v = true ∧ (∀ x ∈ v.items, x.everywhere p = true) ∧
      ∀ e ∈ v.fields, e.2.everywhere p = true := by
  rw [everywhere, fold_eq]
  simp [everywhere, and_assoc]

/-- A condition that is met everywhere in a value is met by what stands inside it. -/
theorem everywhere_of_inside {p : Value → Bool} {v x : Value} (hx : x.Inside v)
    (h : v.everywhere p = true) : p x = true := by
  induction hx with
  | self => exact (everywhere_iff.mp h).1
  | item hy _ ih => exact ih ((everywhere_iff.mp h).2.1 _ hy)
  | field he _ ih => exact ih ((everywhere_iff.mp h).2.2 _ he)

/-- All strings inside a value have at most 4300 characters, and all numbers have finite doubles. -/
def IsModest (v : Value) : Prop :=
  v.everywhere isModest = true

/-- Whether a string spells no whole number with too many digits, and a whole number has not too
many digits itself. -/
def hasShortNumeral : Value → Bool
  | .str word => (spelledDigits? word).all (· ≤ maxIntegerDigits)
  | .int n => isWritableInteger n
  | _ => true

/-- No string inside a value spells a whole number with too many digits, and none is one. -/
def HasShortNumerals (v : Value) : Prop :=
  v.everywhere hasShortNumeral = true

/-- No map inside a value has a key twice. -/
def HasDistinctKeys (v : Value) : Prop :=
  v.everywhere (fun x => decide (Table.names x.fields).Nodup) = true

end Value

namespace Schema

/-- A schema with spelled literals only, at every depth, none of them a whole number with too many
digits to be written. The properties of an object schema are a table, so their names do not
repeat. -/
def IsFittable (s : Schema) : Prop :=
  s.everywhere (fun n => n.hasSpelledLiteral && n.hasWritableLiteral && n.hasDistinctNames) = true

/-- What is asked of a fittable schema, its parts apart. -/
theorem isFittable_iff {s : Schema} :
    s.IsFittable ↔
      (s.hasSpelledLiteral = true ∧ s.hasWritableLiteral = true ∧ s.hasDistinctNames = true) ∧
        ∀ x ∈ s.parts, x.IsFittable := by
  rw [IsFittable, everywhere_iff]
  simp [IsFittable, and_assoc]

/-- The parts of a fittable schema are fittable. -/
theorem IsFittable.of_mem_parts {s x : Schema} (h : s.IsFittable) (hx : x ∈ s.parts) :
    x.IsFittable :=
  (isFittable_iff.mp h).2 x hx

/-- A fittable schema has writable literals. -/
theorem IsFittable.hasWritableLiterals {s : Schema} (h : s.IsFittable) : s.HasWritableLiterals := by
  refine everywhere_mono (fun n hn => ?_) h
  simp only [Bool.and_eq_true] at hn
  exact hn.1.2

/-- What a fittable schema comes upon is fittable, if the definitions of names are. -/
theorem IsFittable.of_meets {resolve : Resolver} {s x : Schema} (h : s.IsFittable)
    (hresolve : ∀ name d, resolve name = some d → d.toSchema.IsFittable)
    (hx : s.Meets resolve x) : x.IsFittable :=
  hx.everywhere (fun name d _ hd => hresolve name d hd) h

/-- Whether a schema takes the values that it accepts as they are. -/
def isExact : Schema → Bool
  | .string | .int | .bool | .null | .enum .. | .external _ | .literal _ => true
  | _ => false

end Schema

/-- A resolver that knows fittable definitions only. -/
def Resolver.IsFittable (resolve : Resolver) : Prop :=
  ∀ name d, resolve name = some d → d.toSchema.IsFittable

/-- A resolver of fittable definitions has writable literals. -/
theorem Resolver.IsFittable.hasWritableLiterals {resolve : Resolver} (h : resolve.IsFittable) :
    resolve.HasWritableLiterals :=
  fun name d hd => (h name d hd).hasWritableLiterals

variable {resolve : Resolver} {v w : Value} {s : Schema}

/-! ## Failures of modest values -/

/-- Without its sign a text is not longer. -/
theorem length_takeSign_le (t : Text) : (Literal.takeSign t).2.length ≤ t.length := by
  unfold Literal.takeSign
  split
  · exact Nat.le_succ _
  · exact Nat.le_succ _
  · exact Nat.le_refl _

/-- A string spells no more digits than it has characters. -/
theorem le_length_of_spelledDigits? {word : String} {digits : Nat}
    (h : spelledDigits? word = some digits) : digits ≤ word.length := by
  obtain ⟨spelled, hspelled, rfl⟩ := Option.map_eq_some_iff.mp h
  obtain ⟨g, g', htrim, -⟩ := Text.exists_trim_append word.toList
  have hdigits : spelled.2 = (Literal.takeSign (Text.trim word.toList)).2 := by
    unfold Literal.integer? at hspelled
    simp only at hspelled
    split at hspelled
    · cases hspelled
      rfl
    · cases hspelled
  have htrimmed : (Text.trim word.toList).length ≤ word.length := by
    have hlength := congrArg List.length htrim
    simp only [List.length_append, String.length_toList] at hlength
    omega
  rw [hdigits]
  exact (length_takeSign_le _).trans htrimmed

/-- A whole number with a finite double can be written. -/
theorem isWritableInteger_of_isFinite {n : Int} (h : (Double.ofInt n).isFinite = true) :
    isWritableInteger n = true := by
  have hlt : n.natAbs < 10 ^ maxIntegerDigits := Double.natAbs_lt_of_isFinite h (by decide)
  exact decide_eq_true ((Nat.length_toDigits_le_iff (by decide) (by decide)).mpr hlt)

/-- Modest values have no numeral with too many digits. -/
theorem Value.IsModest.hasShortNumerals (h : v.IsModest) : v.HasShortNumerals := by
  induction v using Value.ind with
  | step v hitems hfields =>
  obtain ⟨hself, hvitems, hvfields⟩ := Value.everywhere_iff.mp h
  refine Value.everywhere_iff.mpr
    ⟨?_, fun x hx => hitems x hx (hvitems x hx), fun e he => hfields e he (hvfields e he)⟩
  cases v with
  | str word =>
    have hshort : word.length ≤ maxIntegerDigits := by simpa [Value.isModest] using hself
    rw [Value.hasShortNumeral, Option.all_eq_true]
    intro digits hdigits
    exact decide_eq_true ((le_length_of_spelledDigits? hdigits).trans hshort)
  | int n => exact isWritableInteger_of_isFinite hself
  | _ => rfl

/-- A value without a number that is too long fails to fit by a misfit only. -/
theorem isMisfit_of_fit {e : FitError} (hresolve : resolve.IsFittable) (hs : s.IsFittable)
    (hv : v.HasShortNumerals) (h : fit resolve v s = .error e) : e.isMisfit = true := by
  cases explains_of_fit v s e h with
  | misfit h => exact h
  | @integerTooLong word node digits inside meets asks spelled long =>
    have hshort : (spelledDigits? word).all (· ≤ maxIntegerDigits) = true :=
      Value.everywhere_of_inside inside hv
    rw [spelled, Option.all_some, decide_eq_true_eq] at hshort
    exact absurd long (Nat.not_lt.mpr hshort)
  | unwritableLiteral meets unwritable =>
    obtain ⟨-, hwritable, -⟩ := (Schema.isFittable_iff.mp (hs.of_meets hresolve meets)).1
    rw [unwritable] at hwritable
    cases hwritable
  | @unwritableNumber n node inside meets asks unwritable =>
    have hwritable : isWritableInteger n = true := Value.everywhere_of_inside inside hv
    rw [unwritable] at hwritable
    cases hwritable
  | literalWithoutText meets unspelled =>
    obtain ⟨hspelled, -, -⟩ := (Schema.isFittable_iff.mp (hs.of_meets hresolve meets)).1
    rw [unspelled] at hspelled
    cases hspelled

/-! ## What is accepted fits -/

/-- A value that is a spelled literal is taken as it is. -/
theorem toLiteral_of_isLiteral {expected : Scalar}
    (hspelled : (Schema.literal expected).hasSpelledLiteral = true)
    (h : isLiteral expected v = true) : toLiteral expected v = .ok v := by
  unfold isLiteral at h
  split at h
  · cases hspelled
  · rw [beq_iff_eq] at h
    simp [toLiteral, Fit.toBool, h, bind, Except.bind]
  · rw [beq_iff_eq] at h
    simp [toLiteral, toInt, h, bind, Except.bind]
  · cases hspelled
  · rw [beq_iff_eq] at h
    simp [toLiteral, toText, textOf, h, bind, Except.bind]
  · cases h

/-- A member of an enum means itself. -/
theorem enumMember_of_isMember {values : List String} {aliases : List (String × String)}
    {t : String} (h : values = [] ∨ t ∈ values) : enumMember values aliases t = t := by
  rw [enumMember, if_pos]
  simpa using h

/-- A scalar that is accepted is taken as it is. -/
theorem fit_of_isExact (hexact : s.isExact = true) (hspelled : s.hasSpelledLiteral = true)
    (h : Accepts resolve v s) : fit resolve v s = .ok v := by
  rw [fit_eq]
  cases s with
  | string =>
    obtain ⟨t, rfl⟩ := accepts_string.mp h
    rfl
  | int =>
    obtain ⟨n, rfl⟩ := accepts_int.mp h
    rfl
  | bool =>
    obtain ⟨b, rfl⟩ := accepts_bool.mp h
    rfl
  | null =>
    obtain rfl := accepts_null.mp h
    rfl
  | enum values aliases =>
    obtain ⟨t, rfl, hmember⟩ := accepts_enum.mp h
    rw [fitNode, toEnum]
    show Except.ok (Value.str (enumMember values aliases t)) = Except.ok (.str t)
    rw [enumMember_of_isMember hmember]
  | external name => rfl
  | literal expected => exact toLiteral_of_isLiteral hspelled (accepts_literal.mp h)
  | float | array _ | map _ _ | object _ _ _ _ | ref _ | anyOf _ | optional _ => cases hexact

/-- A value with a finite double fits where one is asked for. -/
theorem fit_float {x : Double} (hv : double? v = some x) (hx : x.isFinite = true) :
    fit resolve v .float = .ok (.float x) := by
  rw [fit_eq, fitNode, toDouble, hv]
  simp only [hx, if_true]
  rfl

/-- A name that is known stands for its definition. -/
theorem fit_ref {name : String} {d : Definition} (hd : resolve name = some d) :
    fit resolve v (.ref name) = fit resolve v d.toSchema := by
  rw [fit_eq, fit_eq, fitNode, hd]
  cases d <;> rfl

/-- What an object schema asks for at a key is the schema that the field belongs to. -/
theorem fieldSchema_of_asksAt {properties : List (String × Schema)} {additional : Option Schema}
    {name : String} {x : Schema} (hnames : (Table.names properties).Nodup)
    (h : AsksAt properties additional name x) :
    fieldSchema properties additional name = some x := by
  rcases h with hdeclared | ⟨hfree, rfl⟩
  · rw [fieldSchema, Table.get?_of_mem hnames hdeclared]
    rfl
  · rw [Table.has, Option.isSome_eq_false_iff, Option.isNone_iff_eq_none] at hfree
    rw [fieldSchema, ← Table.get?, hfree]
    rfl

/-- A free key of an object schema that says nothing about undeclared keys belongs to no schema. -/
theorem fieldSchema_of_free {properties : List (String × Schema)} {name : String}
    (hfree : Table.has properties name = false) : fieldSchema properties none name = none := by
  rw [Table.has, Option.isSome_eq_false_iff, Option.isNone_iff_eq_none] at hfree
  rw [fieldSchema, ← Table.get?, hfree]
  rfl

/-- A map that is accepted by an object schema fits it when its fields fit what accepts them. -/
theorem exists_fit_object {properties : List (String × Schema)} {required : List String}
    {additional : Option Schema} {descriptions : List (String × Value)}
    (hnames : (Table.names properties).Nodup)
    (hfields : ∀ f ∈ v.fields, ∀ x ∈ properties.map (·.2) ++ additional.toList,
      Accepts resolve f.2 x → ∃ w, fit resolve f.2 x = .ok w)
    (h : Accepts resolve v (.object properties required additional descriptions)) :
    ∃ w, fit resolve v (.object properties required additional descriptions) = .ok w := by
  obtain ⟨es, rfl, -, haccepts⟩ := accepts_object.mp h
  rcases hfit : fit resolve (.map es) (.object properties required additional descriptions) with
    e | w
  · rw [fit_eq, fitNode] at hfit
    rcases fitObject_eq_error hfit with ⟨hnone, -⟩ | ⟨f, hf, x, hasks, d, hd, -⟩
    · exact absurd rfl (hnone es)
    · obtain ⟨w, hw⟩ :=
        hfields f hf x hasks.mem (haccepts f hf x (fieldSchema_of_asksAt hnames hasks))
      rw [hd] at hw
      cases hw
  · exact ⟨w, rfl⟩

/-- **What is accepted fits.** -/
theorem exists_fit (hresolve : resolve.IsFittable) (v : Value) :
    v.IsModest → ∀ s : Schema, s.IsFittable → Accepts resolve v s →
      ∃ w, fit resolve v s = .ok w := by
  induction v using Value.ind with
  | step v hitems hfields =>
  intro hv s
  obtain ⟨hself, hvitems, hvfields⟩ := Value.everywhere_iff.mp hv
  induction s using Schema.ind with
  | step s ih =>
  intro hs h
  have hpart (x : Schema) (hx : x ∈ s.parts) : x.IsFittable := hs.of_mem_parts hx
  obtain ⟨hspelled, -, hdistinct⟩ := (Schema.isFittable_iff.mp hs).1
  cases s with
  | float =>
    rcases accepts_float.mp h with ⟨n, rfl⟩ | ⟨x, rfl⟩
    · exact ⟨_, fit_float rfl hself⟩
    · exact ⟨_, fit_float rfl hself⟩
  | array s =>
    obtain ⟨xs, rfl, haccepts⟩ := accepts_array.mp h
    rcases hfit : fit resolve (.array xs) (.array s) with e | w
    · rw [fit_eq, fitNode] at hfit
      obtain ⟨n, x, hx, d, hd, -⟩ := fitItems_eq_error (map_eq_error_iff.mp hfit)
      replace hx := List.mem_of_getElem? hx
      obtain ⟨w, hw⟩ := hitems x hx (hvitems x hx) s (hpart s (by simp [Schema.parts]))
        (haccepts x hx)
      rw [hd] at hw
      cases hw
    · exact ⟨w, rfl⟩
  | map key s =>
    obtain ⟨es, rfl, haccepts⟩ := accepts_map.mp h
    rcases hfit : fit resolve (.map es) (.map key s) with e | w
    · rw [fit_eq, fitNode] at hfit
      obtain ⟨f, hf, d, hd, -⟩ := fitEntries_eq_error (map_eq_error_iff.mp hfit)
      obtain ⟨w, hw⟩ :=
        hfields f hf (hvfields f hf) s (hpart s (by simp [Schema.parts])) (haccepts f hf)
      rw [hd] at hw
      cases hw
    · exact ⟨w, rfl⟩
  | object properties required additional descriptions =>
    exact exists_fit_object (by simpa [Schema.hasDistinctNames] using hdistinct)
      (fun f hf x hx => hfields f hf (hvfields f hf) x (hpart x hx)) h
  | ref name =>
    rcases hd : resolve name with _ | d
    · exact ⟨v, by rw [fit_eq, fitNode, hd]⟩
    · have hdefinition := hresolve name d hd
      have haccepts := accepts_ref.mp h d hd
      rw [fit_ref hd]
      cases d with
      | enum values aliases => exact ⟨v, fit_of_isExact rfl rfl haccepts⟩
      | object properties required descriptions =>
        have hnames := (Schema.isFittable_iff.mp hdefinition).1.2.2
        exact exists_fit_object
          (by simpa [Definition.toSchema, Schema.hasDistinctNames] using hnames)
          (fun f hf x hx => hfields f hf (hvfields f hf) x (hdefinition.of_mem_parts hx)) haccepts
  | anyOf members =>
    obtain ⟨x, hx, haccepts⟩ := exists_accepts_of_anyOf h
    obtain ⟨w, hw⟩ := ih x hx (hpart x hx) haccepts
    rcases hfit : fit resolve v (.anyOf members) with e | w
    · -- No member before the accepting one ends the search: they fail by misfits, if at all.
      rw [fit_eq, fitNode] at hfit
      rcases fitFirst_eq_error hfit with ⟨-, hall⟩ | ⟨y, hy, hfails, hfinal⟩
      · obtain ⟨d, hd, -⟩ := hall x hx
        rw [← fit_eq, hw] at hd
        cases hd
      · rw [← fit_eq] at hfails
        rw [isMisfit_of_fit hresolve (hpart y hy) hv.hasShortNumerals hfails] at hfinal
        cases hfinal
    · exact ⟨w, rfl⟩
  | optional s =>
    rw [fit_eq, fitNode, ← fit_eq]
    split
    · exact ⟨.null, rfl⟩
    · next hnull =>
      have hinner : s ∈ (Schema.optional s).parts := by simp [Schema.parts]
      exact ih s hinner (hpart s hinner) ((accepts_optional.mp h).resolve_left hnull)
  | string | int | bool | null | enum _ _ | external _ | literal _ =>
    exact ⟨v, fit_of_isExact rfl hspelled h⟩

/-! ## What is accepted fits as it is -/

/-- How a value that is accepted may differ from its fit: whole numbers become doubles where doubles
are asked for, and the keys of objects may come in another order. -/
inductive Keeps (resolve : Resolver) : Schema → Value → Value → Prop
  | same {s : Schema} {v : Value} (h : s.isExact = true) : Keeps resolve s v v
  | whole (n : Int) : Keeps resolve .float (.int n) (.float (Double.ofInt n))
  | float (x : Double) : Keeps resolve .float (.float x) (.float x)
  | array {s : Schema} {xs ws : List Value} (length : ws.length = xs.length)
      (items : ∀ (i : Nat) (x w : Value), xs[i]? = some x → ws[i]? = some w → Keeps resolve s x w) :
      Keeps resolve (.array s) (.array xs) (.array ws)
  | map {key s : Schema} {es fs : Table Value} (names : fs.names = es.names)
      (fields : ∀ (name : String) (x y : Value), es.get? name = some x → fs.get? name = some y →
        Keeps resolve s x y) :
      Keeps resolve (.map key s) (.map es) (.map fs)
  | object {properties : List (String × Schema)} {required : List String}
      {additional : Option Schema} {descriptions : List (String × Value)} {es fs : Table Value}
      (names : fs.names.Perm es.names)
      (fields : ∀ (name : String) (s : Schema) (x y : Value),
        fieldSchema properties additional name = some s →
        es.get? name = some x → fs.get? name = some y → Keeps resolve s x y)
      (others : ∀ name : String, fieldSchema properties additional name = none →
        fs.get? name = es.get? name) :
      Keeps resolve (.object properties required additional descriptions) (.map es) (.map fs)
  | known {name : String} {d : Definition} {v w : Value} (hd : resolve name = some d)
      (h : Keeps resolve d.toSchema v w) : Keeps resolve (.ref name) v w
  | unknown {name : String} {v : Value} (hd : resolve name = none) : Keeps resolve (.ref name) v v
  | null (s : Schema) : Keeps resolve (.optional s) .null .null
  | optional {s : Schema} {v w : Value} (hv : v ≠ .null) (h : Keeps resolve s v w) :
      Keeps resolve (.optional s) v w

/-- Entries that fit one schema keep their names, in their order. -/
theorem names_of_forall₂ {es ws : List (String × Value)}
    (h : List.Forall₂ (fun e w => e.1 = w.1 ∧ fit resolve e.2 s = .ok w.2) es ws) :
    Table.names ws = Table.names es := by
  induction h with
  | nil => rfl
  | cons he _ ih => rw [Table.names_cons, Table.names_cons, he.1, ih]

/-- **What stands at the places of a fitted array**: the fit of what stood there. -/
theorem getElem?_fit_array (h : fit resolve v (.array s) = .ok w) :
    ∃ xs ws, v = .array xs ∧ w = .array ws ∧ ws.length = xs.length ∧
      ∀ (i : Nat) (x y : Value), xs[i]? = some x → ws[i]? = some y → fit resolve x s = .ok y := by
  obtain ⟨xs, ws, rfl, rfl, hall⟩ := fit_array_eq_ok_iff.mp h
  refine ⟨xs, ws, rfl, rfl, hall.length_eq.symm, ?_⟩
  intro i x y hx hy
  obtain ⟨hi, rfl⟩ := List.getElem?_eq_some_iff.mp hx
  obtain ⟨hj, rfl⟩ := List.getElem?_eq_some_iff.mp hy
  exact hall.get hi hj

/-- **What stands under the names of a fitted map**: the fit of what stood there. -/
theorem get?_fit_map {key : Schema} (hkeys : (Table.names v.fields).Nodup)
    (h : fit resolve v (.map key s) = .ok w) :
    ∃ es fs, v = .map es ∧ w = .map fs ∧ Table.names fs = Table.names es ∧
      ∀ (name : String) (x y : Value), Table.get? es name = some x → Table.get? fs name = some y →
        fit resolve x s = .ok y := by
  obtain ⟨es, fs, rfl, rfl, hall⟩ := fit_map_eq_ok_iff.mp h
  refine ⟨es, fs, rfl, rfl, names_of_forall₂ hall, ?_⟩
  intro name x y hx hy
  obtain ⟨⟨k, x'⟩, he, rfl, hfit⟩ := exists_mem_of_forall₂ hall _ (Table.mem_of_get? hy)
  obtain rfl := Option.some.inj (hx.symm.trans (Table.get?_of_mem hkeys he))
  exact hfit

/-- The declared keys come out in the order of the properties, as far as they are there. -/
theorem names_fitDeclared {es ws : List (String × Value)} {properties : List (String × Schema)}
    (h : fitDeclared (es.map (Fit.waitingField resolve)) properties = .ok ws) :
    Table.names ws = (Table.names properties).filter fun name => Table.has es name := by
  induction properties generalizing ws with
  | nil =>
    cases h
    rfl
  | cons p properties ih =>
    obtain ⟨name, s⟩ := p
    have hlookup : (es.map (Fit.waitingField resolve)).lookup name =
        (Table.get? es name).map (Fit.waiting resolve) :=
      Table.get?_mapEntries (Fit.waiting resolve) es name
    rw [fitDeclared, hlookup] at h
    rw [Table.names_cons, List.filter_cons, Table.has]
    rcases hfound : Table.get? es name with _ | x
    · rw [hfound] at h
      exact ih h
    · rw [hfound] at h
      obtain ⟨w, -, h⟩ := bind_eq_ok_iff.mp h
      obtain ⟨us, hus, h⟩ := bind_eq_ok_iff.mp h
      cases h
      exact congrArg (name :: ·) (ih hus)

/-- The undeclared keys come out in their order. -/
theorem names_fitUndeclared {es ws : List (String × Value)} {properties : List (String × Schema)}
    {additional : Option Schema}
    (h : fitUndeclared additional ((es.map (Fit.waitingField resolve)).filter
      fun f => !Table.has properties f.1) = .ok ws) :
    Table.names ws = (Table.names es).filter fun name => !Table.has properties name := by
  have hnames : Table.names (es.filter fun e => !Table.has properties e.1) =
      (Table.names es).filter fun name => !Table.has properties name := by
    rw [Table.names, Table.names, List.filter_map]
    rfl
  rw [List.filter_map] at h
  rw [← hnames]
  cases additional with
  | some s => exact names_of_forall₂ (fitEntries_eq_ok_iff.mp h)
  | none =>
    cases h
    rw [Table.names, List.map_map, List.map_map]
    rfl

/-- Where the fields of a fitted map come from. -/
theorem fitObject_eq_ok {properties : List (String × Schema)} {additional : Option Schema}
    {es : List (String × Value)}
    (h : fitObject properties additional (.map es) (es.map (Fit.waitingField resolve)) = .ok w) :
    ∃ fs, w = .map fs ∧
      Table.names fs = (Table.names properties).filter (fun name => Table.has es name) ++
        (Table.names es).filter (fun name => !Table.has properties name) ∧
      ∀ f ∈ fs, ∃ e ∈ es, e.1 = f.1 ∧
        ((∃ x, AsksAt properties additional f.1 x ∧ fit resolve e.2 x = .ok f.2) ∨
          (Table.has properties f.1 = false ∧ additional = none ∧ e.2 = f.2)) := by
  obtain ⟨ds, hds, h⟩ := bind_eq_ok_iff.mp h
  obtain ⟨us, hus, h⟩ := bind_eq_ok_iff.mp h
  cases h
  refine ⟨ds ++ us, rfl, ?_, ?_⟩
  · rw [← names_fitDeclared hds, ← names_fitUndeclared hus, Table.names, List.map_append]
    rfl
  · intro f hf
    rcases List.mem_append.mp hf with hf | hf
    · obtain ⟨p, hp, e, he, hpf, hef, hfit⟩ := mem_fitDeclared hds f hf
      exact ⟨e, he, hef, .inl ⟨p.2, .inl (hpf ▸ hp), hfit⟩⟩
    · obtain ⟨e, he, hef, hfree, hfit⟩ := mem_fitUndeclared hus f hf
      cases additional with
      | some x => exact ⟨e, he, hef, .inl ⟨x, .inr ⟨hfree, rfl⟩, hfit⟩⟩
      | none => exact ⟨e, he, hef, .inr ⟨hfree, rfl, hfit⟩⟩

/-- The names of a map, those declared by an object schema first, are its names. -/
theorem perm_names_declared_first {properties : List (String × Schema)} {es : List (String × Value)}
    (hnames : (Table.names properties).Nodup) (hkeys : (Table.names es).Nodup) :
    ((Table.names properties).filter (fun name => Table.has es name) ++
      (Table.names es).filter (fun name => !Table.has properties name)).Perm (Table.names es) := by
  refine (List.perm_ext_iff_of_nodup ?_ hkeys).mpr fun name => ?_
  · refine (hnames.filter _).append (hkeys.filter _) ?_
    intro name hdeclared hfree
    have hhas := Table.has_iff.mpr (List.mem_filter.mp hdeclared).1
    simp [hhas] at hfree
  · rw [List.mem_append, List.mem_filter, List.mem_filter, ← Table.has_iff, ← Table.has_iff]
    cases Table.has properties name <;> simp

/-- **What stands under the names of a fitted map**: the fit of what stood there to the schema that
the field belongs to, or what stood there if it belongs to none. -/
theorem get?_fitObject {properties : List (String × Schema)} {additional : Option Schema}
    {es : List (String × Value)} (hnames : (Table.names properties).Nodup)
    (hkeys : (Table.names es).Nodup)
    (h : fitObject properties additional (.map es) (es.map (Fit.waitingField resolve)) = .ok w) :
    ∃ fs, w = .map fs ∧
      Table.names fs = (Table.names properties).filter (fun name => Table.has es name) ++
        (Table.names es).filter (fun name => !Table.has properties name) ∧
      (∀ name s x y, fieldSchema properties additional name = some s → Table.get? es name = some x →
        Table.get? fs name = some y → fit resolve x s = .ok y) ∧
      ∀ name, fieldSchema properties additional name = none →
        Table.get? fs name = Table.get? es name := by
  obtain ⟨fs, rfl, hfs, horigin⟩ := fitObject_eq_ok h
  have hperm : (Table.names fs).Perm (Table.names es) :=
    hfs ▸ perm_names_declared_first hnames hkeys
  have hsource (name : String) (y : Value) (hy : Table.get? fs name = some y) :
      ∃ x, Table.get? es name = some x ∧
        ((∃ s, AsksAt properties additional name s ∧ fit resolve x s = .ok y) ∨
          (Table.has properties name = false ∧ additional = none ∧ x = y)) := by
    obtain ⟨⟨k, x⟩, he, rfl, hxy⟩ := horigin (name, y) (Table.mem_of_get? hy)
    exact ⟨x, Table.get?_of_mem hkeys he, hxy⟩
  refine ⟨fs, rfl, hfs, ?_, ?_⟩
  · intro name s x y hs hx hy
    obtain ⟨x', hx', ⟨s', hasks, hfit⟩ | ⟨hfree, hadditional, -⟩⟩ := hsource name y hy
    · obtain rfl := Option.some.inj (hx.symm.trans hx')
      obtain rfl := Option.some.inj (hs.symm.trans (fieldSchema_of_asksAt hnames hasks))
      exact hfit
    · rw [hadditional, fieldSchema_of_free hfree] at hs
      cases hs
  · intro name hs
    rcases hy : Table.get? fs name with _ | y
    · rw [Table.get?_eq_none_iff, hperm.mem_iff, ← Table.get?_eq_none_iff] at hy
      exact hy.symm
    · obtain ⟨x, hx, ⟨s, hasks, -⟩ | ⟨-, -, rfl⟩⟩ := hsource name y hy
      · rw [fieldSchema_of_asksAt hnames hasks] at hs
        cases hs
      · exact hx.symm

/-- The fit of a map to an object schema keeps it when the fits of its fields keep them. -/
theorem keeps_object {properties : List (String × Schema)} {required : List String}
    {additional : Option Schema} {descriptions : List (String × Value)}
    (hnames : (Table.names properties).Nodup) (hkeys : (Table.names v.fields).Nodup)
    (hfields : ∀ f ∈ v.fields, ∀ x ∈ properties.map (·.2) ++ additional.toList, ∀ y,
      Accepts resolve f.2 x → fit resolve f.2 x = .ok y → Keeps resolve x f.2 y)
    (haccepts : Accepts resolve v (.object properties required additional descriptions))
    (h : fit resolve v (.object properties required additional descriptions) = .ok w) :
    Keeps resolve (.object properties required additional descriptions) v w := by
  obtain ⟨es, rfl, -, haccepts⟩ := accepts_object.mp haccepts
  rw [fit_eq, fitNode] at h
  obtain ⟨fs, rfl, hfs, hfit, hothers⟩ := get?_fitObject hnames hkeys h
  have hperm : (Table.names fs).Perm (Table.names es) :=
    hfs ▸ perm_names_declared_first hnames hkeys
  refine .object hperm ?_ hothers
  intro name s x y hs hx hy
  have he := Table.mem_of_get? hx
  have hpart : s ∈ (Schema.object properties required additional descriptions).parts :=
    mem_parts_of_fieldSchema hs
  exact hfields _ he s hpart y (haccepts _ he s hs) (hfit name s x y hs hx hy)

/-- **Without unions, what is accepted fits as it is.** -/
theorem keeps_of_fit (hresolve : resolve.IsDirect) (v : Value) :
    v.HasDistinctKeys → ∀ (s : Schema) (w : Value), s.IsDirect → Accepts resolve v s →
      fit resolve v s = .ok w → Keeps resolve s v w := by
  induction v using Value.ind with
  | step v hitems hfields =>
  intro hv s
  obtain ⟨hself, hvitems, hvfields⟩ := Value.everywhere_iff.mp hv
  have hkeys : (Table.names v.fields).Nodup := by simpa using hself
  induction s using Schema.ind with
  | step s ih =>
  intro w hs haccepts h
  have hnode := Schema.everywhere_self hs
  simp only [Bool.and_eq_true] at hnode
  have hexact (hexact : s.isExact = true) : Keeps resolve s v w := by
    rw [fit_of_isExact hexact hnode.1.2 haccepts] at h
    cases h
    exact .same hexact
  cases s with
  | float =>
    have hfinite {x : Double} (hx : double? v = some x) : w = .float x := by
      rw [fit_eq, fitNode, toDouble, hx] at h
      obtain ⟨y, hy, rfl⟩ := map_eq_ok_iff.mp h
      simp only at hy
      split at hy
      · cases hy
        rfl
      · cases hy
    rcases accepts_float.mp haccepts with ⟨n, rfl⟩ | ⟨x, rfl⟩
    · rw [hfinite rfl]
      exact .whole n
    · rw [hfinite rfl]
      exact .float x
  | array s =>
    obtain ⟨xs, rfl, hitem⟩ := accepts_array.mp haccepts
    obtain ⟨_, ws, ⟨⟩, rfl, hlength, hfit⟩ := getElem?_fit_array h
    refine .array hlength ?_
    intro i x y hx hy
    have hmem : x ∈ xs := List.mem_of_getElem? hx
    exact hitems x hmem (hvitems x hmem) s y hs.array (hitem x hmem) (hfit i x y hx hy)
  | map key s =>
    obtain ⟨es, rfl, hentry⟩ := accepts_map.mp haccepts
    obtain ⟨_, fs, ⟨⟩, rfl, hnames, hfit⟩ := get?_fit_map hkeys h
    refine .map hnames ?_
    intro name x y hx hy
    have hmem : (name, x) ∈ es := Table.mem_of_get? hx
    exact hfields _ hmem (hvfields _ hmem) s y hs.map (hentry _ hmem) (hfit name x y hx hy)
  | object properties required additional descriptions =>
    refine keeps_object hs.object.1 hkeys ?_ haccepts h
    intro f hf x hx y
    exact hfields f hf (hvfields f hf) x y ((Schema.everywhere_iff.mp hs).2 x hx)
  | ref name =>
    rcases hd : resolve name with _ | d
    · rw [fit_eq, fitNode, hd] at h
      cases h
      exact .unknown hd
    · have hdirect := hresolve name d hd
      have haccepts := accepts_ref.mp haccepts d hd
      rw [fit_ref hd] at h
      refine .known hd ?_
      cases d with
      | enum values aliases =>
        rw [fit_of_isExact rfl rfl haccepts] at h
        cases h
        exact .same rfl
      | object properties required descriptions =>
        refine keeps_object hdirect.object.1 hkeys ?_ haccepts h
        intro f hf x hx y
        exact hfields f hf (hvfields f hf) x y ((Schema.everywhere_iff.mp hdirect).2 x hx)
  | anyOf members => simp [Schema.isUnion] at hnode
  | optional s =>
    rw [fit_eq, fitNode, ← fit_eq] at h
    split at h
    · next hnull =>
      cases h
      rw [hnull]
      exact .null s
    · next hnull =>
      have hinner : s ∈ (Schema.optional s).parts := by simp [Schema.parts]
      exact .optional hnull
        (ih s hinner w hs.optional ((accepts_optional.mp haccepts).resolve_left hnull) h)
  | string | int | bool | null | enum _ _ | external _ | literal _ => exact hexact rfl

/-- **What is accepted fits as it is.** A value that the check accepts fits, whatever unions and
names are in the schema, if its strings have at most 4300 characters, its numbers have finite
doubles, and the whole numbers among the literals have at most 4300 digits. Without unions, the fit
differs from the value in two ways only: whole numbers become doubles where doubles are asked for,
and the keys of objects may come in another order. -/
theorem fit_of_check (hresolve : resolve.IsFittable) (hs : s.IsFittable) (hv : v.IsModest)
    (h : check resolve v s = .ok ()) :
    ∃ w, fit resolve v s = .ok w ∧
      (resolve.IsDirect → s.IsDirect → v.HasDistinctKeys → Keeps resolve s v w) := by
  obtain ⟨w, hw⟩ := exists_fit hresolve v hv s hs h
  exact ⟨w, hw, fun hdirect hs hkeys => keeps_of_fit hdirect v hkeys s w hs h hw⟩

/-- A catalog with one definition, which refers to itself. -/
def scaleResolver : Resolver
  | "Scale" => some (.object [("weight", .float), ("parts", .array (.ref "Scale"))] ["weight"] [])
  | _ => none

/-- A whole weight and a free key in front of the declared ones are taken, at two depths. -/
theorem fit_of_check_scale :
    let v : Value := .map [("name", .str "both"),
      ("parts", .array [.map [("unit", .str "kg"), ("weight", .int 3)]]), ("weight", .int 3)]
    scaleResolver.IsDirect ∧ v.IsModest ∧ v.HasDistinctKeys ∧
      check scaleResolver v (.ref "Scale") = .ok () ∧
        ∃ w, fit scaleResolver v (.ref "Scale") = .ok w ∧
          Keeps scaleResolver (.ref "Scale") v w := by
  intro v
  have hdirect : scaleResolver.IsDirect := by
    intro name d h
    unfold scaleResolver at h
    split at h
    · cases h
      rfl
    · cases h
  have hfittable : scaleResolver.IsFittable := by
    intro name d h
    unfold scaleResolver at h
    split at h
    · cases h
      rfl
    · cases h
  have hmodest : v.IsModest := by
    show v.everywhere Value.isModest = true
    decide +kernel
  have hkeys : v.HasDistinctKeys := by cbv
  have hcheck : check scaleResolver v (.ref "Scale") = .ok () := by cbv
  have hs : Schema.IsFittable (.ref "Scale") := rfl
  obtain ⟨w, hw, hkeeps⟩ := fit_of_check hfittable hs hmodest hcheck
  exact ⟨hdirect, hmodest, hkeys, hcheck, w, hw, hkeeps hdirect rfl hkeys⟩

/-- Where a literal has too many digits to be written, an accepted value does not fit: the first
member of the union lacks a required key, which only the check looks for, and its declared key meets
the literal, which fitting cannot report. -/
theorem fit_of_check_unwritable :
    let s : Schema :=
      .anyOf [.object [("a", .literal .unwritable)] ["b"] none [], .map .string .string]
    let v : Value := .map [("a", .str "x")]
    v.IsModest ∧
      ∀ resolve, check resolve v s = .ok () ∧ fit resolve v s = .error .integerUnwritable := by
  intro s v
  refine ⟨?_, fun resolve => ⟨rfl, ?_⟩⟩
  · show v.everywhere Value.isModest = true
    decide +kernel
  have hliteral : fit resolve (.str "x") (.literal .unwritable) = .error .integerUnwritable :=
    fit_unwritable fun _ => rfl
  have hobject : fit resolve v (.object [("a", .literal .unwritable)] ["b"] none []) =
      .error .integerUnwritable := by
    rw [fit_eq]
    show (Fit.under _ (fit resolve (.str "x") (.literal .unwritable)) >>= _) >>= _ = _
    rw [hliteral]
    rfl
  rw [fit_eq, fitNode, fitFirst, ← fit_eq, hobject]
  rfl

end ShapedReply
