/-!
# Character ranges

Properties of characters are given as lists of closed ranges of code points. A range may also carry
a stride, for scripts that alternate upper and lower case.
-/

namespace ShapedReply.Text

/-- Whether a code point lies in one of the closed ranges. -/
def inRanges (ranges : List (Nat × Nat)) (n : Nat) : Bool :=
  ranges.any fun r => r.1 ≤ n && n ≤ r.2

/-- A run of code points that are all moved by one distance: every `stride`-th code point from
`first` to `last`. -/
structure Shift where
  /-- The first code point of the run. -/
  first : Nat
  /-- The last code point of the run. -/
  last : Nat
  /-- The distance between neighbours of the run. -/
  stride : Nat
  /-- The distance by which each member is moved. -/
  offset : Int

/-- Whether a code point belongs to the run. -/
def Shift.covers (s : Shift) (n : Nat) : Bool :=
  s.first ≤ n && n ≤ s.last && (n - s.first) % s.stride == 0

/-- The code point to which the first run that covers `n` moves it; `n` itself when none does. -/
def shiftBy (runs : List Shift) (n : Nat) : Nat :=
  match runs.find? (·.covers n) with
  | some s => (n + s.offset).toNat
  | none => n

end ShapedReply.Text
