import ShapedReply.Location
import ShapedReply.Number.Literal
import ShapedReply.Schema.Basic
import ShapedReply.Text.Casing
import ShapedReply.Value.Display
import ShapedReply.Value.Fold

/-!
# Fitting values to schemas

Answers are loosely typed: numbers come as strings, truth values as words, enum members in another
case. `fit` turns a value into one of the shape that a schema describes, where that is unambiguous,
and otherwise reports the expected shape, the kind found, and where. What it leaves open (a missing
key, an unknown enum member) is for the check that follows.

A union takes the first member that fits. References go through a resolver; an unknown name lets its
value pass.
-/

namespace ShapedReply

/-- Why a value does not fit. -/
inductive FitError where
  /-- The value at a location has the wrong kind. -/
  | misfit (expected : String) (actual : Kind) (location : Location)
  /-- A whole number is spelled with more digits than the limit. -/
  | integerTooLong (digits : Nat)
  /-- A whole number has more digits than can be written: one that is to become a text, or one in
  the name of the schema that a value does not fit. -/
  | integerUnwritable
  /-- A literal is not a string, a whole number or a truth value, so that no text can match it. -/
  | literalWithoutText
  deriving DecidableEq

namespace FitError

/-- The same error, seen from one step further out. -/
def under (step : Step) : FitError → FitError
  | .misfit expected actual location => .misfit expected actual (step :: location)
  | e => e

/-- The wording of an error, for locations behind a base. -/
def message (base : String) : FitError → String
  | .misfit expected actual location =>
    "Expected " ++ expected ++ ", got " ++ actual.name ++ " at " ++ location.render base
  | .integerTooLong digits => integerTooLongMessage digits
  | .integerUnwritable => integerUnwritableMessage
  | .literalWithoutText => ""

/-- Whether a union goes on to its next member after an error. -/
def isMisfit : FitError → Bool
  | .misfit .. => true
  | _ => false

end FitError

namespace Fit

open Text

/-- The result of fitting. -/
abbrev Result := Except FitError

/-- The report that a value has not the kind that a schema wants, if the name of the schema can be
written. -/
def misfit (s : Schema) (v : Value) : FitError :=
  match s.label? with
  | some expected => .misfit expected v.kind []
  | none => .integerUnwritable

/-- A result seen from one step further out. -/
def under {α : Type} (step : Step) (r : Result α) : Result α :=
  r.mapError (·.under step)

/-! ## Scalars -/

/-- The text of a scalar. Null and containers have none. -/
def textOf : Value → Result (Option String)
  | .str s => .ok (some s)
  | .bool b => .ok (some (if b then "true" else "false"))
  | .int n =>
    if isWritableInteger n then .ok (some (String.ofList (Writer.integer n)))
    else .error .integerUnwritable
  | .float x => .ok (some (String.ofList (Value.displayNumbers.write x)))
  | _ => .ok none

/-- A value as a string. -/
def toText (s : Schema) (v : Value) : Result String := do
  match ← textOf v with
  | some t => .ok t
  | none => .error (misfit s v)

/-- The whole number that a text spells: an integer literal, or a decimal literal whose double is
whole. -/
def integerOfText (t : Text) : Result (Option Int) :=
  match Literal.integer? t with
  | some (negative, ds) =>
    if ds.length > maxIntegerDigits then .error (.integerTooLong ds.length)
    else .ok (some (Double.signed negative (digitsValue ds)))
  | none => .ok ((Literal.decimal? t).bind (·.toDouble.toInt?))

/-- A value as a whole number. -/
def toInt (s : Schema) (v : Value) : Result Int := do
  let found ← match v with
    | .bool b => .ok (some (if b then 1 else 0))
    | .int n => .ok (some n)
    | .float x => .ok x.toInt?
    | .str t => integerOfText (trim t.toList)
    | _ => .ok none
  match found with
  | some n => .ok n
  | none => .error (misfit s v)

/-- The double that a value stands for. A truth value stands for none. -/
def double? : Value → Option Double
  | .int n => some (Double.ofInt n)
  | .float x => some x
  | .str t => (Literal.decimal? (trim t.toList)).map (·.toDouble)
  | _ => none

/-- A value as a finite double. -/
def toDouble (s : Schema) (v : Value) : Result Double :=
  match double? v with
  | some x => if x.isFinite then .ok x else .error (misfit s v)
  | none => .error (misfit s v)

/-- The truth value that a word spells, in any case and with blanks around it. -/
def truthOfText? (t : Text) : Option Bool :=
  let word := String.ofList (lower (trim t))
  if word = "true" ∨ word = "1" ∨ word = "yes" then some true
  else if word = "false" ∨ word = "0" ∨ word = "no" then some false
  else none

/-- A value as a truth value. -/
def toBool (s : Schema) (v : Value) : Result Bool :=
  let found := match v with
    | .bool b => some b
    | .int n => some (n != 0)
    | .str t => truthOfText? t.toList
    | _ => none
  match found with
  | some b => .ok b
  | none => .error (misfit s v)

/-! ## Enums and literals -/

/-- A string with its case folded away. -/
def folded (s : String) : Text := fold s.toList

/-- The enum member that a text means: itself if it is one, or if there are no members; what it is
another spelling of; or the first value, then the first alias, that differs in case only. A text
that means none stays as it is. -/
def enumMember (values : List String) (aliases : List (String × String)) (t : String) : String :=
  if values.isEmpty || values.contains t then t
  else match aliases.lookup t with
    | some value => value
    | none =>
      let wanted := fold (trim t.toList)
      match values.find? fun v => folded v == wanted with
      | some value => value
      | none => match aliases.find? fun a => folded a.1 == wanted with
        | some a => a.2
        | none => t

/-- A value as an enum member. -/
def toEnum (values : List String) (aliases : List (String × String)) (v : Value) : Result Value :=
  (toText (.enum values aliases) v).map fun t => .str (enumMember values aliases t)

/-- A value as a literal. A string matches without regard to case and to blanks around it. -/
def toLiteral (expected : Scalar) (v : Value) : Result Value :=
  let s : Schema := .literal expected
  match expected with
  | .bool b => do
    let found ← toBool s v
    if found = b then .ok (.bool b) else .error (misfit s v)
  | .int n => do
    let found ← toInt s v
    if found = n then .ok (.int n) else .error (misfit s v)
  | .str e => do
    let found ← toText s v
    if fold (trim found.toList) = folded e ∨ found = e then .ok (.str e) else .error (misfit s v)
  | .float _ | .null => do
    let _ ← toText s v
    .error .literalWithoutText

/-! ## Containers -/

/-- A part that waits for its schema. -/
abbrev Waiting := Part (Schema → Result Value)

/-- The items of an array against one schema, from a position on. -/
def fitItems (s : Schema) : Nat → List Waiting → Result (List Value)
  | _, [] => .ok []
  | i, p :: ps => do
    let v ← under (.index i) (p.answer s)
    let vs ← fitItems s (i + 1) ps
    return v :: vs

/-- The entries of a map against one schema. -/
def fitEntries (s : Schema) : List (String × Waiting) → Result (List (String × Value))
  | [] => .ok []
  | (k, p) :: ps => do
    let v ← under (.key k) (p.answer s)
    let vs ← fitEntries s ps
    return (k, v) :: vs

/-- The declared properties that a map has, in the order of their declaration. -/
def fitDeclared (fields : List (String × Waiting)) :
    List (String × Schema) → Result (List (String × Value))
  | [] => .ok []
  | (name, s) :: rest =>
    match fields.lookup name with
    | some p => do
      let v ← under (.key name) (p.answer s)
      let vs ← fitDeclared fields rest
      return (name, v) :: vs
    | none => fitDeclared fields rest

/-- The undeclared entries of a map: against a schema, or as they are. -/
def fitUndeclared (additional : Option Schema) (fields : List (String × Waiting)) :
    Result (List (String × Value)) :=
  match additional with
  | some s => fitEntries s fields
  | none => .ok (fields.map fun f => (f.1, f.2.value))

/-- A map against an object schema: the declared properties first, then the other keys. -/
def fitObject (properties : List (String × Schema)) (additional : Option Schema)
    (v : Value) (fields : List (String × Waiting)) : Result Value :=
  match v with
  | .map _ => do
    let declared ← fitDeclared fields properties
    let others ← fitUndeclared additional (fields.filter fun f => !Table.has properties f.1)
    return .map (declared ++ others)
  | _ => .error (.misfit "object" v.kind [])

mutual

/-- A value against a schema, given what its parts answer. -/
def fitNode (resolve : Resolver) (v : Value) (items : List Waiting)
    (fields : List (String × Waiting)) : Schema → Result Value
  | .string => (toText .string v).map .str
  | .int => (toInt .int v).map .int
  | .float => (toDouble .float v).map .float
  | .bool => (toBool .bool v).map .bool
  | .null => if v = .null then .ok .null else .error (misfit .null v)
  | .optional inner => if v = .null then .ok .null else fitNode resolve v items fields inner
  | .array s =>
    match v with
    | .array _ => (fitItems s 0 items).map .array
    | _ => .error (misfit (.array s) v)
  | .map key s =>
    match v with
    | .map _ => (fitEntries s fields).map .map
    | _ => .error (misfit (.map key s) v)
  | .object properties _ additional _ => fitObject properties additional v fields
  | .enum values aliases => toEnum values aliases v
  | .ref name =>
    match resolve name with
    | some (.enum values aliases) => toEnum values aliases v
    | some (.object properties _ _) => fitObject properties none v fields
    | none => .ok v
  | .external _ => .ok v
  | .anyOf members => fitFirst resolve v items fields (misfit (.anyOf members) v) members
  | .literal expected => toLiteral expected v

/-- A value against the first member that it fits; `failure` when it fits none. -/
def fitFirst (resolve : Resolver) (v : Value) (items : List Waiting)
    (fields : List (String × Waiting)) (failure : FitError) : List Schema → Result Value
  | [] => .error failure
  | s :: rest =>
    match fitNode resolve v items fields s with
    | .ok w => .ok w
    | .error e => if e.isMisfit then fitFirst resolve v items fields failure rest else .error e

end

end Fit

/-- A value fitted to a schema. -/
def fit (resolve : Resolver) (v : Value) (s : Schema) : Fit.Result Value :=
  v.fold (Fit.fitNode resolve) s

end ShapedReply
