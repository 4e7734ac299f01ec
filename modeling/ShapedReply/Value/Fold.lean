import ShapedReply.Value.Basic

/-!
# Recursion over values

Fitting, checking and decoding walk down a value and hold each part against its own schema. The walk
is one recursion over the value: a node is handed its parts together with the answers that they
give, and an answer may still wait for the schema it is asked about.
-/

namespace ShapedReply

/-- A part of a value and the answer that the recursion gives there. -/
structure Part (α : Type) where
  /-- The part itself. -/
  value : Value
  /-- The answer for it. -/
  answer : α

namespace Value

variable {α : Type}

/-- What a recursion does at a node: it sees the value, the items of an array, and the entries of a
map. -/
abbrev Node (α : Type) := Value → List (Part α) → List (String × Part α) → α

mutual

/-- The recursion that a node function describes. -/
def fold (node : Node α) : Value → α
  | .array items => node (.array items) (foldItems node items) []
  | .map entries => node (.map entries) [] (foldEntries node entries)
  | .null => node .null [] []
  | .bool b => node (.bool b) [] []
  | .int n => node (.int n) [] []
  | .float x => node (.float x) [] []
  | .str s => node (.str s) [] []

/-- The items of an array with their answers. -/
def foldItems (node : Node α) : List Value → List (Part α)
  | [] => []
  | v :: vs => ⟨v, fold node v⟩ :: foldItems node vs

/-- The entries of a map with their answers. -/
def foldEntries (node : Node α) : List (String × Value) → List (String × Part α)
  | [] => []
  | (k, v) :: es => (k, ⟨v, fold node v⟩) :: foldEntries node es

end

/-- Items are folded one by one. -/
theorem foldItems_eq_map (node : Node α) (vs : List Value) :
    foldItems node vs = vs.map fun v => ⟨v, fold node v⟩ := by
  induction vs with
  | nil => rfl
  | cons v vs ih => simp [foldItems, ih]

/-- Entries are folded one by one. -/
theorem foldEntries_eq_map (node : Node α) (es : List (String × Value)) :
    foldEntries node es = es.map fun e => (e.1, ⟨e.2, fold node e.2⟩) := by
  induction es with
  | nil => rfl
  | cons e es ih => simp [foldEntries, ih]

end Value

end ShapedReply
