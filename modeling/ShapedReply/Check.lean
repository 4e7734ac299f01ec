import ShapedReply.Location
import ShapedReply.Schema.Basic
import ShapedReply.Value.Fold

/-!
# Checking values against schemas

After fitting, a value is compared with its schema: kinds, required keys and enum members. The first
disagreement is reported. Undeclared keys are allowed, a whole number counts as a number, and a
truth value counts as neither. Names that the resolver does not know, and external names, accept
anything.

A report names the schema that a value disagrees with. Where that name has a number with too many
digits to be written, there is no report, and the check as a whole fails, in a union too.
-/

namespace ShapedReply

/-- How a value disagrees with a schema. -/
inductive Disagreement where
  /-- A value of another kind. -/
  | mismatch (expected : String) (actual : Kind)
  /-- A required key is not there. -/
  | missing (name : String)
  /-- A string is not among the values of an enum. -/
  | notInEnum (value : String) (values : List String)
  deriving DecidableEq

namespace Disagreement

/-- The wording of a disagreement. -/
def message : Disagreement → String
  | .mismatch expected actual => "Expected " ++ expected ++ ", got " ++ actual.name
  | .missing name => "Missing required property: " ++ name
  | .notInEnum value values =>
    "Invalid enum value: " ++ value ++ ". Expected one of: " ++ Text.joinWith ", " values

/-- The category of a disagreement. -/
def category : Disagreement → String
  | .mismatch .. => "type_mismatch"
  | .missing _ => "missing_field"
  | .notInEnum .. => "enum_value"

end Disagreement

/-- A disagreement and where it is. A missing key is located where it should be. -/
structure Violation where
  /-- What is wrong. -/
  cause : Disagreement
  /-- Where it is. -/
  location : Location
  deriving DecidableEq

/-- The same violation, seen from one step further out. -/
def Violation.under (step : Step) (e : Violation) : Violation :=
  { e with location := step :: e.location }

/-- Why a check fails. -/
inductive CheckError where
  /-- A disagreement is found. -/
  | violation (report : Violation)
  /-- A disagreement is found that cannot be reported, since the name of the schema has a whole
  number with more digits than can be written. -/
  | integerUnwritable
  deriving DecidableEq

/-- The same error, seen from one step further out. -/
def CheckError.under (step : Step) : CheckError → CheckError
  | .violation report => .violation (report.under step)
  | .integerUnwritable => .integerUnwritable

/-- Whether a union goes on to its next member after an error. -/
def CheckError.isViolation : CheckError → Bool
  | .violation _ => true
  | .integerUnwritable => false

namespace Check

/-- The result of checking. -/
abbrev Result := Except CheckError Unit

/-- A result seen from one step further out. -/
def under (step : Step) (r : Result) : Result :=
  r.mapError (·.under step)

/-- The report that a value has not the kind that is expected, if the name of that kind can be
written. -/
def mismatch (expected : Option String) (v : Value) : CheckError :=
  match expected with
  | some name => .violation ⟨.mismatch name v.kind, []⟩
  | none => .integerUnwritable

/-- Demands a condition on the kind of a value. -/
def expect (ok : Bool) (expected : Option String) (v : Value) : Result :=
  if ok then .ok () else .error (mismatch expected v)

/-- A part that waits for its schema. -/
abbrev Waiting := Part (Schema → Result)

/-- The items of an array against one schema, from a position on. -/
def checkItems (s : Schema) : Nat → List Waiting → Result
  | _, [] => .ok ()
  | i, p :: ps => do
    under (.index i) (p.answer s)
    checkItems s (i + 1) ps

/-- The entries of a map against one schema. -/
def checkEntries (s : Schema) : List (String × Waiting) → Result
  | [] => .ok ()
  | (k, p) :: ps => do
    under (.key k) (p.answer s)
    checkEntries s ps

/-- The first required key that a map lacks. -/
def checkRequired (fields : List (String × Waiting)) : List String → Result
  | [] => .ok ()
  | name :: rest =>
    if Table.has fields name then checkRequired fields rest
    else .error (.violation ⟨.missing name, [.key name]⟩)

/-- The entries of a map against the properties that they belong to. -/
def checkFields (properties : List (String × Schema)) (additional : Option Schema) :
    List (String × Waiting) → Result
  | [] => .ok ()
  | (k, p) :: ps => do
    match properties.lookup k with
    | some s => under (.key k) (p.answer s)
    | none => match additional with
      | some s => under (.key k) (p.answer s)
      | none => .ok ()
    checkFields properties additional ps

/-- A value against an object schema. -/
def checkObject (properties : List (String × Schema)) (required : List String)
    (additional : Option Schema) (v : Value) (fields : List (String × Waiting)) : Result :=
  match v with
  | .map _ => do
    checkRequired fields required
    checkFields properties additional fields
  | _ => expect false "object" v

/-- A value against an enum. -/
def checkEnum (values : List String) (v : Value) : Result :=
  match v with
  | .str s =>
    if values.isEmpty || values.contains s then .ok ()
    else .error (.violation ⟨.notInEnum s values, []⟩)
  | _ => expect false "enum" v

/-- Whether a value is a literal: of its kind and equal to it. -/
def isLiteral (expected : Scalar) (v : Value) : Bool :=
  match expected, v with
  | .null, .null => true
  | .bool a, .bool b => a == b
  | .int m, .int n => m == n
  | .float x, .float y => x.same y
  | .str s, .str t => s == t
  | _, _ => false

mutual

/-- A value against a schema, given what its parts answer. -/
def checkNode (resolve : Resolver) (v : Value) (items : List Waiting)
    (fields : List (String × Waiting)) : Schema → Result
  | .string => expect (v.kind == .string) "string" v
  | .int => expect (v.kind == .int) "int" v
  | .float => expect (v.kind == .int || v.kind == .float) "float" v
  | .bool => expect (v.kind == .bool) "bool" v
  | .null => expect (v.kind == .null) "null" v
  | .optional inner => if v = .null then .ok () else checkNode resolve v items fields inner
  | .array s =>
    match v with
    | .array _ => checkItems s 0 items
    | _ => expect false (Schema.array s).label? v
  | .map key s =>
    match v with
    | .map _ => checkEntries s fields
    | _ => expect false (Schema.map key s).label? v
  | .object properties required additional _ => checkObject properties required additional v fields
  | .enum values _ => checkEnum values v
  | .ref name =>
    match resolve name with
    | some (.enum values _) => checkEnum values v
    | some (.object properties required _) => checkObject properties required none v fields
    | none => .ok ()
  | .external _ => .ok ()
  | .anyOf members => checkAny resolve v items fields (Schema.anyOf members).label? members
  | .literal expected => expect (isLiteral expected v) (Schema.literal expected).label? v

/-- A value against any of several schemas; the name of the union is for the report. -/
def checkAny (resolve : Resolver) (v : Value) (items : List Waiting)
    (fields : List (String × Waiting)) (name : Option String) : List Schema → Result
  | [] => expect false name v
  | s :: rest =>
    match checkNode resolve v items fields s with
    | .ok () => .ok ()
    | .error e => if e.isViolation then checkAny resolve v items fields name rest else .error e

end

end Check

/-- A value checked against a schema. -/
def check (resolve : Resolver) (v : Value) (s : Schema) : Check.Result :=
  v.fold (Check.checkNode resolve) s

end ShapedReply
