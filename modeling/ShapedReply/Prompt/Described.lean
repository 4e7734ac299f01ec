import ShapedReply.Prompt.Expression

/-!
# What an expression shows

An expression shows the descriptions of the properties that it lists, and it can only show texts. A
document may describe a property by any value; such a description is carried along, but no
expression can be written over it. An expression also shows literals, and a whole number among them
has a text only within the limit on its digits. The functions here collect what would be shown, in
the order in which the expression is written.
-/

namespace ShapedReply.Prompt

/-- Why an expression cannot be written. -/
inductive ShowError where
  /-- A property is described by something that is not a text. -/
  | notText
  /-- A literal is a whole number with more digits than can be written. -/
  | integerUnwritable

/-- What an expression shows. -/
inductive Shown where
  /-- What a property is described by. -/
  | description (v : Value)
  /-- A literal. -/
  | literal (value : Scalar)

/-- Whether a description can be shown: it is a text, or there is nothing to show. -/
def isShowable : Value → Bool
  | .str _ => true
  | v => v.isVoid

/-- Why something cannot be shown, if it cannot. -/
def Shown.error? : Shown → Option ShowError
  | .description v => if isShowable v then none else some .notText
  | .literal value => if value.isWritable then none else some .integerUnwritable

mutual

/-- What the expression of a schema shows, given what names show. -/
def shownWith (named : String → List Shown) : Schema → List Shown
  | .array items => shownWith named items
  | .map key value => shownWith named key ++ shownWith named value
  | .object properties _ _ descriptions => shownByProperties named descriptions properties
  | .ref name => named name
  | .anyOf members => shownByMembers named members
  | .optional inner => shownWith named inner
  | .literal value => [.literal value]
  | .string | .int | .float | .bool | .null | .enum .. | .external _ => []

/-- What the members of a choice show. -/
def shownByMembers (named : String → List Shown) : List Schema → List Shown
  | [] => []
  | s :: rest => shownWith named s ++ shownByMembers named rest

/-- What properties show: their own descriptions, and what their schemas show. -/
def shownByProperties (named : String → List Shown) (descriptions : Table Value) :
    List (String × Schema) → List Shown
  | [] => []
  | (name, s) :: rest =>
    ((descriptions.get? name).map .description).toList ++ shownWith named s
      ++ shownByProperties named descriptions rest

end

/-- The members of a choice show what each of them shows, one after the other. -/
theorem shownByMembers_eq_flatMap (named : String → List Shown) (members : List Schema) :
    shownByMembers named members = members.flatMap (shownWith named) := by
  induction members with
  | nil => rfl
  | cons s members ih => rw [shownByMembers, ih, List.flatMap_cons]

/-- What the expression of a name shows. -/
def shownByName : Nat → Table Definition → String → List Shown
  | 0, _, _ => []
  | n + 1, known, name => match known.get? name with
    | some (.object properties _ descriptions) =>
      shownByProperties (shownByName n (known.erase name)) descriptions properties
    | _ => []

/-- What a schema shows, with what is known about names. -/
def shownBySchema (known : Table Definition) (s : Schema) : List Shown :=
  shownWith (shownByName known.length known) s

/-- What an object shows. -/
def shownByObject (known : Table Definition) (properties : Table Schema)
    (descriptions : Table Value) : List Shown :=
  shownByProperties (shownByName known.length known) descriptions properties

/-- What an expression shows, with further descriptions for an object. -/
def shown (known : Table Definition) (s : Schema) (further : Table Value) : List Shown :=
  match s with
  | .object properties _ _ descriptions =>
    shownByObject known properties (Table.update descriptions further)
  | s => shownBySchema known s

/-- The first reason why not all of it can be shown. -/
def obstacle? (parts : List Shown) : Option ShowError :=
  parts.findSome? Shown.error?

/-- There is no obstacle exactly if each part can be shown. -/
theorem obstacle?_eq_none_iff {parts : List Shown} :
    obstacle? parts = none ↔ ∀ part ∈ parts, part.error? = none :=
  List.findSome?_eq_none_iff

/-- The first obstacle in two lists is that in the first one, or else that in the second. -/
theorem obstacle?_append (parts others : List Shown) :
    obstacle? (parts ++ others) = (obstacle? parts).or (obstacle? others) :=
  List.findSome?_append

/-- What is written, if all that it shows can be shown. -/
def showing {α : Type} (parts : List Shown) (written : α) : Except ShowError α :=
  match obstacle? parts with
  | some e => .error e
  | none => .ok written

/-- Something is written exactly if each part that it shows can be shown. -/
theorem showing_eq_ok_iff {α : Type} {parts : List Shown} {written x : α} :
    showing parts written = .ok x ↔ (∀ part ∈ parts, part.error? = none) ∧ written = x := by
  rw [← obstacle?_eq_none_iff, showing]
  split
  · next e he => simp [he]
  · next hnone => simp [hnone]

/-- What is done to a written text can be done before, if the obstacles are the same. -/
theorem map_showing {α β : Type} {parts others : List Shown}
    (h : obstacle? parts = obstacle? others)
    (f : α → β) (written : α) : (showing parts written).map f = showing others (f written) := by
  rw [showing, showing, h]
  split <;> rfl

/-- A schema as an expression, if it can be written. -/
def express (known : Table Definition) (s : Schema) (further : Table Value) (level : Int) :
    Except ShowError String :=
  showing (shown known s further) (expression known s further level)

end ShapedReply.Prompt
