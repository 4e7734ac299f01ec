import ShapedReply.Target.Restyle

/-!
# Decoding values into targets

Decoding holds a value against a target and answers with the decoded value: models as maps by field
name with all their fields, sets without repetition and in the order of their texts, rows as lists,
enumeration members by their values. Whole numbers become doubles where a number is asked for, and a
value that equals a literal or the value of a member stands for it; nothing else is converted.

A choice prefers the closest member. Among members that took fields of models the one that took most
wins; otherwise the one that had to convert least, the earlier one on a tie.

What holds a value against a target is a parameter of decoding (`decodeInto`); `decodeAsIs?` is the
one that the rest of the library uses.
-/

namespace ShapedReply

/-- How close a value is to its target. -/
inductive Closeness where
  /-- The value had to be rebuilt. -/
  | rebuilt
  /-- The value was taken for one of the right kind. -/
  | taken
  /-- The value is what the target asks for. -/
  | exact

namespace Closeness

/-- The rank of a closeness; closer is higher. -/
def rank : Closeness → Nat
  | .rebuilt => 0
  | .taken => 1
  | .exact => 2

/-- The lesser closeness of two. -/
def min (a b : Closeness) : Closeness :=
  if a.rank ≤ b.rank then a else b

end Closeness

/-- A decoded value, with what a choice needs to know about it. -/
structure Decoded where
  /-- The value. -/
  value : Value
  /-- How close the given value was. -/
  closeness : Closeness
  /-- How many fields of models were given, if there were models. -/
  fieldsGiven : Option Nat
  /-- Whether the result can be an element of a set: it cannot change. -/
  isElement : Bool

namespace Decode

/-- A part that waits for its target. -/
abbrev Waiting := Part (Target → Option Decoded)

/-- A value that is what its target asks for. -/
def exactly (v : Value) : Decoded := ⟨v, .exact, none, true⟩

/-- The given fields of two parts together. -/
def addGiven : Option Nat → Option Nat → Option Nat
  | some m, some n => some (m + n)
  | some m, none => some m
  | none, n => n

/-- A container of decoded parts. One that cannot change is an element if its parts are. -/
def gather (build : List Value → Value) (closeness : Closeness) (fixed : Bool)
    (parts : List Decoded) : Decoded :=
  { value := build (parts.map (·.value))
    closeness := parts.foldl (fun c p => c.min p.closeness) closeness
    fieldsGiven := parts.foldl (fun n p => addGiven n p.fieldsGiven) none
    isElement := fixed && parts.all (·.isElement) }

/-- Whether a value that is taken as it is can be an element of a set. -/
def isScalar : Value → Bool
  | .array _ | .map _ => false
  | _ => true

/-- The elements of a set in the order of their texts, each once. -/
def elements (vs : List Value) : List Value :=
  (Value.distinct vs).mergeSort fun a b => decide (a.toLine ≤ b.toLine)

/-- The items of an array against one target. -/
def decodeItems (t : Target) (items : List Waiting) : Option (List Decoded) :=
  items.mapM (·.answer t)

/-- The items of an array against a row of targets of the same length. -/
def decodeRow : List Target → List Waiting → Option (List Decoded)
  | [], [] => some []
  | t :: ts, p :: ps => do
    let d ← p.answer t
    let ds ← decodeRow ts ps
    return d :: ds
  | _, _ => none

/-- A set of decoded items. -/
def decodeSet (v : Value) (items : List Waiting) (fixed : Bool) (t : Target) : Option Decoded :=
  match v with
  | .array _ => do
    let ds ← decodeItems t items
    if ds.all (·.isElement) then
      return gather (fun vs => .array (elements vs)) .rebuilt fixed ds
    else none
  | _ => none

/-- Where a field is found in a map: under its key, then under its name if that is allowed. -/
def findField (options : ModelOptions) (f : FieldInfo) (entries : List (String × Waiting)) :
    Option (String × Waiting) :=
  match entries.find? (·.1 == f.key) with
  | some e => some e
  | none => if options.byName then entries.find? (·.1 == f.name) else none

/-- The fields of a model: each with its name and value, and the key that it was found under. -/
def decodeFields (model : Target) (options : ModelOptions) (entries : List (String × Waiting)) :
    List (FieldInfo × Target) → Option (List (String × Value × Option (String × Decoded)))
  | [] => some []
  | (f, t) :: rest => do
    let field ← match findField options f entries with
      | some (key, p) => (p.answer (Target.inside model t)).map fun d =>
        (f.name, d.value, some (key, d))
      | none => f.fallback.map fun v => (f.name, v, none)
    let fields ← decodeFields model options entries rest
    return field :: fields

/-- A map against a model. At best the map is taken for the model. -/
def decodeModel (v : Value) (entries : List (String × Waiting)) (model : Target)
    (options : ModelOptions) (fields : List (FieldInfo × Target)) : Option Decoded :=
  match v with
  | .map _ => do
    let found ← decodeFields model options entries fields
    let given := found.filterMap (·.2.2)
    if options.closed && entries.any fun e => !given.any (·.1 == e.1) then none
    else return {
      value := .map (found.map fun f => (f.1, f.2.1))
      closeness := given.foldl (fun c g => c.min g.2.closeness) .taken
      fieldsGiven := given.foldl (fun n g => addGiven n g.2.fieldsGiven) (some given.length)
      isElement := false }
  | _ => none

/-- Whether a new result of a choice beats the best one so far. -/
def beats (new best : Decoded) : Bool :=
  match best.fieldsGiven, new.fieldsGiven with
  | some m, some n => if m = n then best.closeness.rank < new.closeness.rank else m < n
  | _, _ => best.closeness.rank < new.closeness.rank

/-- The best of the results of a choice; an exact one without models ends the search. -/
def best : Option Decoded → List (Option Decoded) → Option Decoded
  | found, [] => found
  | found, none :: rest => best found rest
  | found, some d :: rest =>
    match d.closeness, d.fieldsGiven, found with
    | .exact, none, _ => some d
    | _, _, none => best (some d) rest
    | _, _, some b => best (some (if beats d b then d else b)) rest

/-- The scalar that a value stands for: the one of its own kind that is alike, else a double that
is, else the last one that is. -/
def pick (values : List Scalar) (v : Value) : Option Scalar :=
  let found := values.filter (·.toValue.alike v)
  match found.find? (·.toValue.kind == v.kind) with
  | some s => some s
  | none => match found.find? (·.toValue.kind == .float) with
    | some s => some s
    | none => found.getLast?

mutual

/-- A value against a target, given what its parts answer. -/
def node (v : Value) (items : List Waiting) (entries : List (String × Waiting)) :
    Target → Option Decoded
  | .text => if v.kind == .string then some (exactly v) else none
  | .integer => if v.kind == .int then some (exactly v) else none
  | .number =>
    match v with
    | .float _ => some (exactly v)
    | .int n =>
      if (Double.ofInt n).isFinite then some ⟨.float (Double.ofInt n), .taken, none, true⟩ else none
    | _ => none
  | .truth => if v.kind == .bool then some (exactly v) else none
  | .anything => some ⟨v, .taken, none, isScalar v⟩
  | .nothing => if v.kind == .null then some (exactly v) else none
  | .list item =>
    match v with
    | .array _ =>
      if item.isAnything then some ⟨v, .exact, none, false⟩
      else (decodeItems item items).map (gather .array .exact false)
    | _ => none
  | .anyList => if v.kind == .array then some ⟨v, .exact, none, false⟩ else none
  | .set item => decodeSet v items false item
  | .frozenSet item => decodeSet v items true item
  | .row targets =>
    match v with
    | .array _ => (decodeRow targets items).map (gather .array .rebuilt true)
    | _ => none
  | .rowOf item =>
    match v with
    | .array _ => (decodeItems item items).map (gather .array .rebuilt true)
    | _ => none
  | .table key value =>
    match v with
    | .map _ => do
      let keys ← entries.mapM fun e => node (.str e.1) [] [] key
      let closeness := keys.foldl (fun c k => c.min k.closeness) .exact
      let ds ← entries.mapM fun e => e.2.answer value
      return gather (fun vs => .map ((entries.map (·.1)).zip vs)) closeness false ds
    | _ => none
  | .anyTable =>
    if v.kind == .map then some ⟨v, if entries.isEmpty then .exact else .taken, none, false⟩
    else none
  | .union _ members =>
    if v.kind == .null && members.any Target.isNothing then some (exactly v)
    else best none (nodes v items entries members)
  | .annotated _ inner => node v items entries inner
  | .literal values => (pick values v).map fun s => exactly s.toValue
  | .model info options fields => decodeModel v entries (.model info options fields) options fields
  | .enumeration _ members =>
    (members.find? (·.2.alike v)).map fun m => ⟨m.2, .rebuilt, none, true⟩
  | .plain _ | .selfOrNothing | .listOfSelf => none

/-- A value against each member of a choice. -/
def nodes (v : Value) (items : List Waiting) (entries : List (String × Waiting)) :
    List Target → List (Option Decoded)
  | [] => []
  | t :: rest => node v items entries t :: nodes v items entries rest

end

end Decode

/-- Why a value cannot be decoded: it does not fit the named target. -/
structure DecodeError where
  /-- The name of the target. -/
  target : String

/-- The wording of a failed decoding. -/
def DecodeError.message (e : DecodeError) : String :=
  "Could not decode value into " ++ e.target

/-- A value held against a target as it is. -/
def decodeAsIs? (v : Value) (t : Target) : Option Value :=
  (v.fold Decode.node t).map (·.value)

/-- What holds a value against a target and answers with what it makes of it, if the value fits. -/
abbrev Validator (α : Type) := Value → Target → Option α

/-- A value decoded into a target: first with its keys restyled, if that is asked for, then with the
keys as they are. -/
def decodeInto {α : Type} (validate : Validator α) (v : Value) (t : Target) (restyled : Bool) :
    Except DecodeError α :=
  let attempts := (if restyled then [restyle v t] else []) ++ [v]
  match attempts.findSome? fun v => validate v t with
  | some decoded => .ok decoded
  | none => .error ⟨t.name⟩

/-- A value decoded into a target, or as it is without one. -/
def decode (v : Value) (t : Option Target) (restyled : Bool) : Except DecodeError Value :=
  match t with
  | none => .ok v
  | some t => decodeInto decodeAsIs? v t restyled

end ShapedReply
