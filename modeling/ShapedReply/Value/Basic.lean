import ShapedReply.Number.Double
import ShapedReply.Table

/-!
# Values

The values that flow through the library: what strict value text spells. Whole numbers are
unbounded, other numbers are doubles, and a map keeps the order of its keys. Strings may have halves
of surrogate pairs in them, in the place of the characters U+105800 to U+105FFF. A `Scalar` is a
value without parts; schemas use scalars as literals.
-/

namespace ShapedReply

/-- A value. -/
inductive Value where
  | null
  | bool (b : Bool)
  | int (n : Int)
  | float (x : Double)
  | str (s : String)
  | array (items : List Value)
  | map (entries : List (String × Value))

/-- A value without parts. -/
inductive Scalar where
  | null
  | bool (b : Bool)
  | int (n : Int)
  | float (x : Double)
  | str (s : String)
  deriving DecidableEq

/-- The kind of a value, as error reports name it. -/
inductive Kind where
  | null
  | bool
  | int
  | float
  | string
  | array
  | map
  deriving DecidableEq

/-- The name of a kind. -/
def Kind.name : Kind → String
  | .null => "null"
  | .bool => "bool"
  | .int => "int"
  | .float => "float"
  | .string => "string"
  | .array => "array"
  | .map => "map"

/-- A scalar as a value. -/
def Scalar.toValue : Scalar → Value
  | .null => .null
  | .bool b => .bool b
  | .int n => .int n
  | .float x => .float x
  | .str s => .str s

namespace Value

/-- The kind of a value. A truth value is never a number. -/
def kind : Value → Kind
  | .null => .null
  | .bool _ => .bool
  | .int _ => .int
  | .float _ => .float
  | .str _ => .string
  | .array _ => .array
  | .map _ => .map

/-- A value without parts, as a scalar. -/
def scalar? : Value → Option Scalar
  | .null => some .null
  | .bool b => some (.bool b)
  | .int n => some (.int n)
  | .float x => some (.float x)
  | .str s => some (.str s)
  | .array _ => none
  | .map _ => none

/-- Whether a value counts as absent where a document may leave a part out: null, false, zero, and
the empty text, list and map. -/
def isVoid : Value → Bool
  | .null => true
  | .bool b => !b
  | .int n => n == 0
  | .float (.finite _ m _) => m == 0
  | .float (.infinite _) => false
  | .str s => s == ""
  | .array items => items.isEmpty
  | .map entries => entries.isEmpty

/-- What a value is made of, one after the other: the items of a list, the characters of a text, the
keys of a map. Other values have no parts. -/
def elements? : Value → Option (List Value)
  | .array items => some items
  | .str s => some (s.toList.map fun c => .str (String.singleton c))
  | .map entries => some (entries.map fun e => .str e.1)
  | _ => none

/-- The number that a value counts as when values are compared: truth values count as one and
zero. -/
def number? : Value → Option (Int ⊕ Double)
  | .bool b => some (.inl (if b then 1 else 0))
  | .int n => some (.inl n)
  | .float x => match x.toInt? with
    | some n => some (.inl n)
    | none => some (.inr x)
  | _ => none

mutual

/-- Whether two values are alike: equal, with numbers compared by what they count as and maps
without regard to order. -/
def alike : Value → Value → Bool
  | .null, .null => true
  | .str s, .str t => s == t
  | .array xs, .array ys => allAlike xs ys
  | .map xs, .map ys => xs.length == ys.length && entriesAlike xs ys
  | x, y => match number? x, number? y with
    | some (.inl m), some (.inl n) => m == n
    | some (.inr m), some (.inr n) => m.same n
    | _, _ => false

/-- Whether two lists are alike item by item. -/
def allAlike : List Value → List Value → Bool
  | [], [] => true
  | x :: xs, y :: ys => alike x y && allAlike xs ys
  | _, _ => false

/-- Whether each entry has one like it under its key. -/
def entriesAlike : List (String × Value) → List (String × Value) → Bool
  | [], _ => true
  | (k, x) :: xs, ys => (match ys.lookup k with
    | some y => alike x y
    | none => false) && entriesAlike xs ys

end

/-- Values without those that are like an earlier one. -/
def distinct (vs : List Value) : List Value :=
  vs.foldl (fun kept v => if kept.any (·.alike v) then kept else kept ++ [v]) []

mutual

/-- Structural equality, decided. -/
def decEq : (x y : Value) → Decidable (x = y)
  | .null, .null => isTrue rfl
  | .bool a, .bool b => if h : a = b then isTrue (by rw [h]) else isFalse (by simpa using h)
  | .int a, .int b => if h : a = b then isTrue (by rw [h]) else isFalse (by simpa using h)
  | .float a, .float b => if h : a = b then isTrue (by rw [h]) else isFalse (by simpa using h)
  | .str a, .str b => if h : a = b then isTrue (by rw [h]) else isFalse (by simpa using h)
  | .array a, .array b => match decEqItems a b with
    | isTrue h => isTrue (by rw [h])
    | isFalse h => isFalse (by simpa using h)
  | .map a, .map b => match decEqEntries a b with
    | isTrue h => isTrue (by rw [h])
    | isFalse h => isFalse (by simpa using h)
  | .null, .bool _ | .null, .int _ | .null, .float _ | .null, .str _ | .null, .array _
  | .null, .map _ | .bool _, .null | .bool _, .int _ | .bool _, .float _ | .bool _, .str _
  | .bool _, .array _ | .bool _, .map _ | .int _, .null | .int _, .bool _ | .int _, .float _
  | .int _, .str _ | .int _, .array _ | .int _, .map _ | .float _, .null | .float _, .bool _
  | .float _, .int _ | .float _, .str _ | .float _, .array _ | .float _, .map _ | .str _, .null
  | .str _, .bool _ | .str _, .int _ | .str _, .float _ | .str _, .array _ | .str _, .map _
  | .array _, .null | .array _, .bool _ | .array _, .int _ | .array _, .float _
  | .array _, .str _ | .array _, .map _ | .map _, .null | .map _, .bool _ | .map _, .int _
  | .map _, .float _ | .map _, .str _ | .map _, .array _ => isFalse (by simp)

/-- Structural equality of lists, decided. -/
def decEqItems : (xs ys : List Value) → Decidable (xs = ys)
  | [], [] => isTrue rfl
  | [], _ :: _ => isFalse (by simp)
  | _ :: _, [] => isFalse (by simp)
  | x :: xs, y :: ys => match decEq x y, decEqItems xs ys with
    | isTrue h, isTrue h' => isTrue (by rw [h, h'])
    | isFalse h, _ => isFalse (by simp [h])
    | _, isFalse h => isFalse (by simp [h])

/-- Structural equality of entries, decided. -/
def decEqEntries : (xs ys : List (String × Value)) → Decidable (xs = ys)
  | [], [] => isTrue rfl
  | [], _ :: _ => isFalse (by simp)
  | _ :: _, [] => isFalse (by simp)
  | (k, x) :: xs, (l, y) :: ys =>
    if hk : k = l then match decEq x y, decEqEntries xs ys with
      | isTrue h, isTrue h' => isTrue (by rw [hk, h, h'])
      | isFalse h, _ => isFalse (by simp [h])
      | _, isFalse h => isFalse (by simp [h])
    else isFalse (by simp [hk])

end

instance : DecidableEq Value := decEq

end Value

end ShapedReply
