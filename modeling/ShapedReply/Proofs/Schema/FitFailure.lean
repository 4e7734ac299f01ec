import ShapedReply.Proofs.Schema.KindAgreement
import ShapedReply.Proofs.Table

/-!
# Why a value does not fit

A fit that fails reports a misfit, with three exceptions, and this file says where they come from:
**an error that is no misfit is explained by a string of the value that spells a whole number with
too many digits, where the schema asks for a whole number, by a whole number with too many digits to
be written, in the value or among the literals, or by a literal that no text spells**
(`explains_of_fit`).

The explanation names a value inside the given one (`Value.Inside`) and a schema that the given one
comes upon, in its parts or behind a name (`Schema.Meets`). It is passed on from the parts to the
whole by `Explains.mono`, one case for each kind of schema.
-/

namespace ShapedReply

open Text Outcome

/-- A value stands inside another when it is the other or stands inside one of its parts. -/
inductive Value.Inside : Value → Value → Prop
  | self (v : Value) : Inside v v
  | item {x y v : Value} (hy : y ∈ v.items) (h : Inside x y) : Inside x v
  | field {x v : Value} {e : String × Value} (he : e ∈ v.fields) (h : Inside x e.2) : Inside x v

/-- A whole number can be written if it is below the first power of ten with too many digits. -/
theorem isWritableInteger_iff {n : Int} :
    isWritableInteger n = true ↔ n.natAbs < 10 ^ maxIntegerDigits := by
  rw [isWritableInteger, decide_eq_true_iff]
  exact Nat.length_toDigits_le_iff (by decide) (by decide)

/-- The least whole number with too many digits to be written. -/
def Scalar.unwritable : Scalar :=
  .int (Int.ofNat (10 ^ maxIntegerDigits))

/-- The least whole number with too many digits cannot be written. -/
theorem Scalar.isWritable_unwritable : unwritable.isWritable = false := by
  have hnot : ¬ (Int.ofNat (10 ^ maxIntegerDigits)).natAbs < 10 ^ maxIntegerDigits :=
    Nat.lt_irrefl (10 ^ maxIntegerDigits)
  rw [unwritable, isWritable, Bool.eq_false_iff, ne_eq, isWritableInteger_iff]
  exact hnot

namespace Schema

/-- A schema comes upon itself, upon what its parts come upon, and, if it is a name, upon what the
definition of the name comes upon. -/
inductive Meets (resolve : Resolver) : Schema → Schema → Prop
  | self (s : Schema) : Meets resolve s s
  | part {s x y : Schema} (hx : x ∈ s.parts) (h : Meets resolve x y) : Meets resolve s y
  | definition {name : String} {d : Definition} {y : Schema} (hd : resolve name = some d)
      (h : Meets resolve d.toSchema y) : Meets resolve (.ref name) y

/-- A schema comes upon what the schemas that it comes upon do. -/
theorem Meets.trans {resolve : Resolver} {s x y : Schema} (h : s.Meets resolve x)
    (hy : x.Meets resolve y) : s.Meets resolve y := by
  induction h with
  | self s => exact hy
  | part hx _ ih => exact .part hx (ih hy)
  | definition hd _ ih => exact .definition hd (ih hy)

/-- What a schema comes upon meets a condition that the schema meets everywhere, if so do the
definitions of the names that the condition lets pass. -/
theorem Meets.everywhere {resolve : Resolver} {p : Schema → Bool}
    (hresolve : ∀ name d, p (.ref name) = true → resolve name = some d →
      d.toSchema.everywhere p = true) {s x : Schema} (h : s.Meets resolve x)
    (hs : s.everywhere p = true) : x.everywhere p = true := by
  induction h with
  | self s => exact hs
  | part hx _ ih => exact ih ((everywhere_iff.mp hs).2 _ hx)
  | definition hd _ ih => exact ih (hresolve _ _ (everywhere_self hs) hd)

/-- Whether a schema asks for a whole number. -/
def asksForInteger : Schema → Bool
  | .int | .literal (.int _) => true
  | _ => false

/-- Whether a schema asks for a text. -/
def asksForText : Schema → Bool
  | .string | .enum .. | .literal (.str _) | .literal (.float _) | .literal .null => true
  | _ => false

/-! ## Names of schemas -/

/-- Whether a schema is no literal of a whole number with too many digits to be written. -/
def hasWritableLiteral : Schema → Bool
  | .literal value => value.isWritable
  | _ => true

/-- No literal in a schema is a whole number with too many digits to be written. -/
def HasWritableLiterals (s : Schema) : Prop :=
  s.everywhere hasWritableLiteral = true

/-- What is asked of a schema with writable literals, its parts apart. -/
theorem hasWritableLiterals_iff {s : Schema} :
    s.HasWritableLiterals ↔ s.hasWritableLiteral = true ∧ ∀ x ∈ s.parts, x.HasWritableLiterals :=
  everywhere_iff

/-- The parts of a schema with writable literals have writable literals. -/
theorem HasWritableLiterals.of_mem_parts {s x : Schema} (h : s.HasWritableLiterals)
    (hx : x ∈ s.parts) : x.HasWritableLiterals :=
  (hasWritableLiterals_iff.mp h).2 x hx

/-- A schema comes upon a literal that cannot be written. -/
def MeetsUnwritable (resolve : Resolver) (s : Schema) : Prop :=
  ∃ node, s.Meets resolve node ∧ node.hasWritableLiteral = false

/-- A schema comes upon such a literal where a part of it does. -/
theorem MeetsUnwritable.of_mem_parts {resolve : Resolver} {s x : Schema} (hx : x ∈ s.parts)
    (h : x.MeetsUnwritable resolve) : s.MeetsUnwritable resolve := by
  obtain ⟨node, hnode, hunwritable⟩ := h
  exact ⟨node, .part hx hnode, hunwritable⟩

/-- A schema comes upon no such literal if a condition that rules it out holds everywhere in the
schema, and in the definitions of the names that the condition lets pass. -/
theorem not_meetsUnwritable {resolve : Resolver} {p : Schema → Bool}
    (hp : ∀ n, p n = true → n.hasWritableLiteral = true)
    (hresolve : ∀ name d, p (.ref name) = true → resolve name = some d →
      d.toSchema.everywhere p = true) {s : Schema} (hs : s.everywhere p = true) :
    ¬ s.MeetsUnwritable resolve := by
  rintro ⟨node, hnode, hunwritable⟩
  have hwritable := hp node (everywhere_self (hnode.everywhere hresolve hs))
  rw [hunwritable] at hwritable
  cases hwritable

/-- A literal that cannot be written has no name. -/
theorem label?_literal_eq_none {value : Scalar} (h : value.isWritable = false) :
    (Schema.literal value).label? = none := by
  simp [label?, h]

/-- Schemas have no names together only if one of them has none. -/
theorem exists_of_labels?_eq_none {members : List Schema} (h : labels? members = none) :
    ∃ x ∈ members, x.label? = none := by
  induction members with
  | nil => cases h
  | cons s members ih =>
    rcases hs : s.label? with _ | label
    · exact ⟨s, List.mem_cons_self, hs⟩
    · rw [labels?, hs] at h
      rcases hrest : labels? members with _ | rest
      · obtain ⟨x, hx, hnone⟩ := ih hrest
        exact ⟨x, List.mem_cons_of_mem s hx, hnone⟩
      · rw [hrest] at h
        cases h

/-- **A schema has a name unless it comes upon a literal that cannot be written.** -/
theorem meetsUnwritable_of_label? (resolve : Resolver) {s : Schema} (h : s.label? = none) :
    s.MeetsUnwritable resolve := by
  induction s using Schema.ind with
  | step s ih =>
  cases s with
  | array s | optional s =>
    have hmem := List.mem_singleton_self s
    rw [label?] at h
    rcases hs : s.label? with _ | label
    · exact (ih s hmem hs).of_mem_parts hmem
    · rw [hs] at h
      cases h
  | map key s =>
    rw [label?] at h
    rcases hkey : key.label? with _ | keyLabel
    · have hmem : key ∈ (Schema.map key s).parts := List.mem_cons_self
      exact (ih key hmem hkey).of_mem_parts hmem
    · rcases hs : s.label? with _ | label
      · have hmem : s ∈ (Schema.map key s).parts :=
          List.mem_cons_of_mem key (List.mem_singleton_self s)
        exact (ih s hmem hs).of_mem_parts hmem
      · rw [hkey, hs] at h
        cases h
  | anyOf members =>
    rw [label?] at h
    rcases hall : labels? members with _ | labels
    · obtain ⟨x, hx, hnone⟩ := exists_of_labels?_eq_none hall
      exact (ih x hx hnone).of_mem_parts hx
    · rw [hall] at h
      cases h
  | literal value =>
    refine ⟨_, .self _, ?_⟩
    rw [label?] at h
    split at h
    · cases h
    · next hunwritable => simpa [hasWritableLiteral] using hunwritable
  | _ => cases h

/-- A schema with writable literals has a name. -/
theorem HasWritableLiterals.label?_ne_none {s : Schema} (h : s.HasWritableLiterals) :
    s.label? ≠ none := by
  -- No definition has a part in the name, so any resolver does.
  have hnone : ¬ s.MeetsUnwritable (fun _ => none) :=
    not_meetsUnwritable (fun _ hn => hn) (fun _ _ _ hd => by cases hd) h
  exact fun hlabel => hnone (meetsUnwritable_of_label? _ hlabel)

end Schema

/-- A resolver that knows definitions with writable literals only. -/
def Resolver.HasWritableLiterals (resolve : Resolver) : Prop :=
  ∀ name d, resolve name = some d → d.toSchema.HasWritableLiterals

namespace Fit

/-- The number of digits of the whole number that a string spells, with blanks around it. -/
def spelledDigits? (word : String) : Option Nat :=
  (Literal.integer? (trim word.toList)).map fun spelled => spelled.2.length

/-- What can be behind the failure of a fit. -/
inductive Explains (resolve : Resolver) (v : Value) (s : Schema) : FitError → Prop
  /-- A value of the wrong kind. -/
  | misfit {e : FitError} (h : e.isMisfit = true) : Explains resolve v s e
  /-- A string with too many digits, where a whole number is asked for. -/
  | integerTooLong {word : String} {node : Schema} {digits : Nat}
      (inside : (Value.str word).Inside v) (meets : s.Meets resolve node)
      (asks : node.asksForInteger = true) (spelled : spelledDigits? word = some digits)
      (long : maxIntegerDigits < digits) : Explains resolve v s (.integerTooLong digits)
  /-- A literal that cannot be written, though it is a part of the name of a schema. -/
  | unwritableLiteral {node : Schema} (meets : s.Meets resolve node)
      (unwritable : node.hasWritableLiteral = false) : Explains resolve v s .integerUnwritable
  /-- A whole number that cannot be written, where a text is asked for. -/
  | unwritableNumber {n : Int} {node : Schema} (inside : (Value.int n).Inside v)
      (meets : s.Meets resolve node) (asks : node.asksForText = true)
      (unwritable : isWritableInteger n = false) : Explains resolve v s .integerUnwritable
  /-- A literal that no text spells. -/
  | literalWithoutText {node : Schema} (meets : s.Meets resolve node)
      (unspelled : node.hasSpelledLiteral = false) : Explains resolve v s .literalWithoutText

variable {resolve : Resolver} {v : Value} {s : Schema} {e : FitError}

/-- Where an error is reported from makes no difference to its explanation. -/
theorem Explains.under (h : Explains resolve v s e) (step : Step) :
    Explains resolve v s (e.under step) := by
  cases h with
  | misfit h =>
    apply Explains.misfit
    cases e with
    | misfit expected actual location => rfl
    | _ => exact h
  | integerTooLong inside meets asks spelled long =>
    exact .integerTooLong inside meets asks spelled long
  | unwritableLiteral meets unwritable => exact .unwritableLiteral meets unwritable
  | unwritableNumber inside meets asks unwritable =>
    exact .unwritableNumber inside meets asks unwritable
  | literalWithoutText meets unspelled => exact .literalWithoutText meets unspelled

/-- What explains a failure further in explains it further out. -/
theorem Explains.mono {v' : Value} {s' : Schema} (h : Explains resolve v' s' e)
    (hv : ∀ x : Value, x.Inside v' → x.Inside v)
    (hs : ∀ node, s'.Meets resolve node → s.Meets resolve node) : Explains resolve v s e := by
  cases h with
  | misfit h => exact .misfit h
  | integerTooLong inside meets asks spelled long =>
    exact .integerTooLong (hv _ inside) (hs _ meets) asks spelled long
  | unwritableLiteral meets unwritable => exact .unwritableLiteral (hs _ meets) unwritable
  | unwritableNumber inside meets asks unwritable =>
    exact .unwritableNumber (hv _ inside) (hs _ meets) asks unwritable
  | literalWithoutText meets unspelled => exact .literalWithoutText (hs _ meets) unspelled

/-- A value that has not the kind of a schema is reported as a misfit, unless the schema has no
name. -/
theorem explains_misfit {t : Schema} (w : Value) (hmeets : s.Meets resolve t) :
    Explains resolve v s (Fit.misfit t w) := by
  unfold Fit.misfit
  split
  · exact .misfit rfl
  · next hnone =>
    obtain ⟨node, hnode, hunwritable⟩ := Schema.meetsUnwritable_of_label? resolve hnone
    exact .unwritableLiteral (hmeets.trans hnode) hunwritable

/-- A value that has not the kind of a schema with writable literals misfits. -/
theorem isMisfit_misfit (h : s.HasWritableLiterals) (v : Value) :
    (Fit.misfit s v).isMisfit = true := by
  unfold Fit.misfit
  split
  · rfl
  · next hnone => exact absurd hnone h.label?_ne_none

/-- A value that is not a literal is no misfit if the literal cannot be written. -/
theorem misfit_literal {value : Scalar} (h : value.isWritable = false) (v : Value) :
    Fit.misfit (.literal value) v = .integerUnwritable := by
  rw [Fit.misfit, Schema.label?_literal_eq_none h]

/-- Where a whole number is no literal that cannot be written, there is no misfit to go on from. -/
theorem fit_unwritable
    (h : ∀ n, toInt (.literal (.int n)) v = .error (Fit.misfit (.literal (.int n)) v)) :
    fit resolve v (.literal .unwritable) = .error .integerUnwritable := by
  have hmisfit := misfit_literal Scalar.isWritable_unwritable v
  unfold Scalar.unwritable at hmisfit ⊢
  rw [fit_eq, fitNode, toLiteral, h, hmisfit]
  rfl

/-! ## Scalars -/

/-- A value has no text because it is none of the scalars, or a whole number that cannot be
written. -/
theorem toText_eq_error {t : Schema} (h : toText t v = .error e) :
    e = Fit.misfit t v ∨
      e = .integerUnwritable ∧ ∃ n, v = .int n ∧ isWritableInteger n = false := by
  rcases bind_eq_error_iff.mp h with h | ⟨found, -, h⟩
  · right
    cases v with
    | int n =>
      rw [textOf] at h
      split at h
      · cases h
      · next hunwritable => exact ⟨(Except.error.inj h).symm, n, rfl, by simpa using hunwritable⟩
    | _ => cases h
  · cases found with
    | some text => cases h
    | none => exact .inl (Except.error.inj h).symm

/-- Where a text is asked for, the failure has an explanation. -/
theorem explains_of_toText {t : Schema} (hmeets : s.Meets resolve t)
    (hasks : t.asksForText = true) (h : toText t v = .error e) : Explains resolve v s e := by
  rcases toText_eq_error h with rfl | ⟨rfl, n, rfl, hunwritable⟩
  · exact explains_misfit v hmeets
  · exact .unwritableNumber (.self _) hmeets hasks hunwritable

/-- A value that is no double misfits. -/
theorem toDouble_eq_error {t : Schema} (h : toDouble t v = .error e) : e = Fit.misfit t v := by
  unfold toDouble at h
  split at h
  · split at h
    · cases h
    · exact (Except.error.inj h).symm
  · exact (Except.error.inj h).symm

/-- A value that is no truth value misfits. -/
theorem toBool_eq_error {t : Schema} (h : Fit.toBool t v = .error e) : e = Fit.misfit t v := by
  unfold Fit.toBool at h
  simp only at h
  split at h
  · cases h
  · exact (Except.error.inj h).symm

/-- Where a value of an enum is asked for, the failure has an explanation. -/
theorem explains_of_toEnum {values : List String} {aliases : List (String × String)}
    (hmeets : s.Meets resolve (.enum values aliases))
    (h : toEnum values aliases v = .error e) : Explains resolve v s e :=
  explains_of_toText hmeets rfl (map_eq_error_iff.mp h)

/-- Reading a whole number fails only on a string with too many digits. -/
theorem integerOfText_eq_error {word : String} (h : integerOfText (trim word.toList) = .error e) :
    ∃ digits, e = .integerTooLong digits ∧ spelledDigits? word = some digits ∧
      maxIntegerDigits < digits := by
  unfold integerOfText at h
  split at h
  · next negative ds hspelled =>
    split at h
    · next hlong =>
      cases h
      exact ⟨ds.length, rfl, by rw [spelledDigits?, hspelled]; rfl, hlong⟩
    · cases h
  · cases h

/-- A value is no whole number because it is a misfit or a string with too many digits. -/
theorem toInt_eq_error {t : Schema} (h : toInt t v = .error e) :
    e = Fit.misfit t v ∨ ∃ word digits, v = .str word ∧ e = .integerTooLong digits ∧
      spelledDigits? word = some digits ∧ maxIntegerDigits < digits := by
  cases v with
  | str word =>
    rcases bind_eq_error_iff.mp h with hreading | ⟨_ | n, -, hfound⟩
    · obtain ⟨digits, rfl, hspelled, hlong⟩ := integerOfText_eq_error hreading
      exact .inr ⟨word, digits, rfl, rfl, hspelled, hlong⟩
    · exact .inl (Except.error.inj hfound).symm
    · cases hfound
  | float x =>
    rcases bind_eq_error_iff.mp h with hnever | ⟨_ | n, -, hfound⟩
    · cases hnever
    · exact .inl (Except.error.inj hfound).symm
    · cases hfound
  | bool b => cases h
  | int n => cases h
  | null | array _ | map _ => exact .inl (Except.error.inj h).symm

/-- Where a whole number is asked for, the failure has an explanation. -/
theorem explains_of_toInt {t : Schema} (hmeets : s.Meets resolve t)
    (hasks : t.asksForInteger = true) (h : toInt t v = .error e) : Explains resolve v s e := by
  rcases toInt_eq_error h with rfl | ⟨word, digits, rfl, rfl, hspelled, hlong⟩
  · exact explains_misfit v hmeets
  · exact .integerTooLong (.self _) hmeets hasks hspelled hlong

/-- A value is another one than a literal, or no text can be the literal, or the value is no number
or no text to compare with it. -/
theorem toLiteral_eq_error {expected : Scalar} (h : toLiteral expected v = .error e) :
    e = Fit.misfit (.literal expected) v ∨
      (e = .literalWithoutText ∧ (Schema.literal expected).hasSpelledLiteral = false) ∨
      ((Schema.literal expected).asksForInteger = true ∧ toInt (.literal expected) v = .error e) ∨
      ((Schema.literal expected).asksForText = true ∧ toText (.literal expected) v = .error e) := by
  cases expected with
  | bool b =>
    rcases bind_eq_error_iff.mp h with h | ⟨found, -, h⟩
    · exact .inl (toBool_eq_error h)
    · split at h
      · cases h
      · exact .inl (Except.error.inj h).symm
  | int n =>
    rcases bind_eq_error_iff.mp h with h | ⟨found, -, h⟩
    · exact .inr (.inr (.inl ⟨rfl, h⟩))
    · split at h
      · cases h
      · exact .inl (Except.error.inj h).symm
  | str text =>
    rcases bind_eq_error_iff.mp h with h | ⟨found, -, h⟩
    · exact .inr (.inr (.inr ⟨rfl, h⟩))
    · split at h
      · cases h
      · exact .inl (Except.error.inj h).symm
  | float _ | null =>
    rcases bind_eq_error_iff.mp h with h | ⟨found, -, h⟩
    · exact .inr (.inr (.inr ⟨rfl, h⟩))
    · exact .inr (.inl ⟨(Except.error.inj h).symm, rfl⟩)

/-- Where a literal is asked for, the failure has an explanation. -/
theorem explains_of_toLiteral {expected : Scalar} (h : toLiteral expected v = .error e) :
    Explains resolve v (.literal expected) e := by
  rcases toLiteral_eq_error h with rfl | ⟨rfl, hunspelled⟩ | ⟨hasks, hint⟩ | ⟨hasks, htext⟩
  · exact explains_misfit v (.self _)
  · exact .literalWithoutText (.self _) hunspelled
  · exact explains_of_toInt (.self _) hasks hint
  · exact explains_of_toText (.self _) hasks htext

/-! ## Containers -/

/-- A result seen from further out fails where the result does. -/
theorem under_eq_error {α : Type} {step : Step} {r : Result α} :
    under step r = .error e ↔ ∃ d, r = .error d ∧ d.under step = e :=
  mapError_eq_error_iff

/-- The items of an array fail where one of them does. -/
theorem fitItems_eq_error {xs : List Value} {i : Nat}
    (h : fitItems s i (xs.map (waiting resolve)) = .error e) :
    ∃ (n : Nat) (x : Value), xs[n]? = some x ∧
      ∃ d, fit resolve x s = .error d ∧ d.under (.index (i + n : Nat)) = e := by
  induction xs generalizing i with
  | nil => cases h
  | cons x xs ih =>
    simp only [List.map_cons, fitItems] at h
    rcases bind_eq_error_iff.mp h with h | ⟨w, -, h⟩
    · obtain ⟨d, hd, hunder⟩ := under_eq_error.mp h
      exact ⟨0, x, rfl, d, hd, hunder⟩
    · rcases bind_eq_error_iff.mp h with h | ⟨ws, -, h⟩
      · obtain ⟨n, y, hy, d, hd, hunder⟩ := ih h
        refine ⟨n + 1, y, hy, d, hd, ?_⟩
        rw [← hunder, Nat.add_assoc, Nat.add_comm n 1]
      · cases h

/-- The fields of a map fail against one schema where one of them does. -/
theorem fitEntries_eq_error {es : List (String × Value)}
    (h : fitEntries s (es.map (waitingField resolve)) = .error e) :
    ∃ f ∈ es, ∃ d, fit resolve f.2 s = .error d ∧ d.under (.key f.1) = e := by
  induction es with
  | nil => cases h
  | cons f es ih =>
    simp only [List.map_cons, waitingField, fitEntries] at h
    rcases bind_eq_error_iff.mp h with h | ⟨w, -, h⟩
    · obtain ⟨d, hd, hunder⟩ := under_eq_error.mp h
      exact ⟨f, List.mem_cons_self, d, hd, hunder⟩
    · rcases bind_eq_error_iff.mp h with h | ⟨ws, -, h⟩
      · obtain ⟨g, hg, hfails⟩ := ih h
        exact ⟨g, List.mem_cons_of_mem f hg, hfails⟩
      · cases h

/-- The declared fields of a map fail where one of them does against a schema declared for it. -/
theorem fitDeclared_eq_error {es : List (String × Value)} {properties : List (String × Schema)}
    (h : fitDeclared (es.map (waitingField resolve)) properties = .error e) :
    ∃ f ∈ es, ∃ x, (f.1, x) ∈ properties ∧
      ∃ d, fit resolve f.2 x = .error d ∧ d.under (.key f.1) = e := by
  induction properties with
  | nil => cases h
  | cons p properties ih =>
    have hlater (h : fitDeclared (es.map (waitingField resolve)) properties = .error e) :
        ∃ f ∈ es, ∃ x, (f.1, x) ∈ p :: properties ∧
          ∃ d, fit resolve f.2 x = .error d ∧ d.under (.key f.1) = e := by
      obtain ⟨f, hf, x, hx, hfails⟩ := ih h
      exact ⟨f, hf, x, List.mem_cons_of_mem p hx, hfails⟩
    obtain ⟨name, s⟩ := p
    simp only [fitDeclared] at h
    rcases hfound : (es.map (waitingField resolve)).lookup name with _ | part
    · rw [hfound] at h
      exact hlater h
    · obtain ⟨f, hf, hpart⟩ := List.mem_map.mp (Table.mem_of_get? hfound)
      obtain ⟨rfl, rfl⟩ := Prod.mk.inj hpart
      simp only [hfound] at h
      rcases bind_eq_error_iff.mp h with h | ⟨w, -, h⟩
      · obtain ⟨d, hd, hunder⟩ := under_eq_error.mp h
        exact ⟨f, hf, s, List.mem_cons_self, d, hd, hunder⟩
      · rcases bind_eq_error_iff.mp h with h | ⟨ws, -, h⟩
        · exact hlater h
        · cases h

/-- An object schema asks for another one at a key: it declares it there, or the key is undeclared
and it asks for it at all such keys. -/
def AsksAt (properties : List (String × Schema)) (additional : Option Schema) (name : String)
    (x : Schema) : Prop :=
  (name, x) ∈ properties ∨ Table.has properties name = false ∧ additional = some x

/-- What an object schema asks for at a key is a part of it. -/
theorem AsksAt.mem {properties : List (String × Schema)} {additional : Option Schema}
    {name : String} {x : Schema} (h : AsksAt properties additional name x) :
    x ∈ properties.map (·.2) ++ additional.toList := by
  rcases h with h | ⟨-, rfl⟩
  · exact List.mem_append_left _ (List.mem_map_of_mem h)
  · simp

/-- A value fails against an object schema because it is no map, or where one of its fields fails
against what the schema asks for there. -/
theorem fitObject_eq_error {properties : List (String × Schema)} {additional : Option Schema}
    (h : fitObject properties additional v (v.fields.map (waitingField resolve)) = .error e) :
    ((∀ es, v ≠ .map es) ∧ e = .misfit "object" v.kind []) ∨
      ∃ f ∈ v.fields, ∃ x, AsksAt properties additional f.1 x ∧
        ∃ d, fit resolve f.2 x = .error d ∧ d.under (.key f.1) = e := by
  unfold fitObject at h
  split at h
  · next es =>
    right
    rcases bind_eq_error_iff.mp h with h | ⟨declared, -, h⟩
    · obtain ⟨f, hf, x, hx, hfails⟩ := fitDeclared_eq_error h
      exact ⟨f, hf, x, .inl hx, hfails⟩
    · rcases bind_eq_error_iff.mp h with h | ⟨others, -, h⟩
      · cases additional with
        | none => cases h
        | some s =>
          rw [fitUndeclared, List.filter_map] at h
          obtain ⟨f, hf, hfails⟩ := fitEntries_eq_error h
          obtain ⟨hf, hfree⟩ := List.mem_filter.mp hf
          exact ⟨f, hf, s, .inr ⟨by simpa [waitingField] using hfree, rfl⟩, hfails⟩
      · cases h
  · next hnone =>
    cases h
    exact .inl ⟨hnone, rfl⟩

/-- A union fails because its value fits no member, or with what is no misfit of a member. -/
theorem fitFirst_eq_error {items : List Waiting} {fields : List (String × Waiting)}
    {failure : FitError} {members : List Schema}
    (h : fitFirst resolve v items fields failure members = .error e) :
    (e = failure ∧
      ∀ x ∈ members, ∃ d, fitNode resolve v items fields x = .error d ∧ d.isMisfit = true) ∨
      ∃ x ∈ members, fitNode resolve v items fields x = .error e ∧ e.isMisfit = false := by
  induction members with
  | nil =>
    rw [fitFirst] at h
    cases h
    exact .inl ⟨rfl, fun x hx => absurd hx List.not_mem_nil⟩
  | cons x members ih =>
    rw [fitFirst] at h
    split at h
    · cases h
    · next d hd =>
      split at h
      · next hmisfit =>
        rcases ih h with ⟨rfl, hall⟩ | ⟨y, hy, hfails⟩
        · exact .inl ⟨rfl, List.forall_mem_cons.mpr ⟨⟨d, hd, hmisfit⟩, hall⟩⟩
        · exact .inr ⟨y, List.mem_cons_of_mem x hy, hfails⟩
      · next hmisfit =>
        cases h
        exact .inr ⟨x, List.mem_cons_self, hd, by simpa using hmisfit⟩

/-! ## Nodes -/

/-- The failure of a map against an object schema is explained where those of its fields are. -/
theorem explains_of_fitObject {properties : List (String × Schema)} {additional : Option Schema}
    (hfields : ∀ f ∈ v.fields, ∀ x d, fit resolve f.2 x = .error d → Explains resolve f.2 x d)
    (hparts : ∀ x ∈ properties.map (·.2) ++ additional.toList, ∀ node,
      x.Meets resolve node → s.Meets resolve node)
    (h : fitObject properties additional v (v.fields.map (waitingField resolve)) = .error e) :
    Explains resolve v s e := by
  rcases fitObject_eq_error h with ⟨-, rfl⟩ | ⟨f, hf, x, hx, d, hd, rfl⟩
  · exact .misfit rfl
  · exact ((hfields f hf x d hd).mono (fun _ => .field hf) (hparts x hx.mem)).under _

/-- **What is behind the failure of a fit.** -/
theorem explains_of_fit (v : Value) :
    ∀ (s : Schema) (e : FitError), fit resolve v s = .error e → Explains resolve v s e := by
  induction v using Value.ind with
  | step v hitems hfields =>
  intro s
  induction s using Schema.ind with
  | step s ih =>
  intro e h
  rw [fit_eq] at h
  cases s with
  | string => exact explains_of_toText (.self _) rfl (map_eq_error_iff.mp h)
  | int => exact explains_of_toInt (.self _) rfl (map_eq_error_iff.mp h)
  | float =>
    rw [toDouble_eq_error (map_eq_error_iff.mp h)]
    exact explains_misfit v (.self _)
  | bool =>
    rw [toBool_eq_error (map_eq_error_iff.mp h)]
    exact explains_misfit v (.self _)
  | null =>
    rw [fitNode] at h
    split at h
    · cases h
    · cases h
      exact .misfit rfl
  | array s =>
    cases v with
    | array xs =>
      obtain ⟨n, x, hx, d, hd, rfl⟩ := fitItems_eq_error (map_eq_error_iff.mp h)
      have hmem : x ∈ (Value.array xs).items := List.mem_of_getElem? hx
      refine ((hitems x hmem s d hd).mono (fun _ => .item hmem) fun _ => .part ?_).under _
      simp [Schema.parts]
    | _ =>
      cases h
      exact explains_misfit _ (.self _)
  | map key s =>
    cases v with
    | map es =>
      obtain ⟨f, hf, d, hd, rfl⟩ := fitEntries_eq_error (map_eq_error_iff.mp h)
      refine ((hfields f hf s d hd).mono (fun _ => .field hf) fun _ => .part ?_).under _
      simp [Schema.parts]
    | _ =>
      cases h
      exact explains_misfit _ (.self _)
  | object properties required additional descriptions =>
    exact explains_of_fitObject hfields (fun x hx _ => .part hx) h
  | enum values aliases => exact explains_of_toEnum (.self _) h
  | ref name =>
    rw [fitNode] at h
    split at h
    · next hd => exact explains_of_toEnum (.definition hd (.self _)) h
    · next properties required descriptions hd =>
      exact explains_of_fitObject hfields (fun x hx _ hmeets => .definition hd (.part hx hmeets)) h
    · cases h
  | external name => cases h
  | anyOf members =>
    rw [fitNode] at h
    rcases fitFirst_eq_error h with ⟨rfl, -⟩ | ⟨x, hx, hfails, -⟩
    · exact explains_misfit v (.self _)
    · rw [← fit_eq] at hfails
      exact (ih x hx e hfails).mono (fun _ => id) fun _ => .part hx
  | optional s =>
    have hinner : s ∈ (Schema.optional s).parts := by simp [Schema.parts]
    rw [fitNode] at h
    split at h
    · cases h
    · rw [← fit_eq] at h
      exact (ih s hinner e h).mono (fun _ => id) fun _ => .part hinner
  | literal expected => exact explains_of_toLiteral h

end Fit

end ShapedReply
