/-!
# Halves of surrogate pairs

An escape names a code unit, and a code unit may be half of a surrogate pair. Two halves in the
right order spell a character. A half without its partner spells none, but it still tells texts
apart; it is kept as a stand-in, a private character at a fixed distance from it, and written as the
escape it came from (`half?_standIn`).

The stand-ins are the characters U+105800 to U+105FFF, near the end of the last plane for private
use. They are characters in their own right, and a text that has one of them cannot be told from a
text with the half in its place. So what the library says about texts, it says about texts without
these characters; where a text has one, the statement is about the half.
-/

namespace ShapedReply.Surrogate

/-- Whether a unit is the first half of a surrogate pair. -/
def isHigh (u : Nat) : Bool := 0xD800 ≤ u && u < 0xDC00

/-- Whether a unit is the second half of a surrogate pair. -/
def isLow (u : Nat) : Bool := 0xDC00 ≤ u && u < 0xE000

/-- Whether a unit is half of a surrogate pair. -/
def isHalf (u : Nat) : Bool := 0xD800 ≤ u && u < 0xE000

/-- The character that two halves spell. -/
def join (high low : Nat) : Char :=
  Char.ofNat (0x10000 + (high - 0xD800) * 0x400 + (low - 0xDC00))

/-- How far a stand-in is from its half. -/
def distance : Nat := 0xF8000

/-- The stand-in of a half. -/
def standIn (u : Nat) : Char := Char.ofNat (distance + u)

/-- The half that a character stands in for. -/
def half? (c : Char) : Option Nat :=
  if isHalf (c.toNat - distance) then some (c.toNat - distance) else none

/-- A half can be read off its stand-in. -/
theorem half?_standIn {u : Nat} (h : isHalf u = true) : half? (standIn u) = some u := by
  have bounds : 0xD800 ≤ u ∧ u < 0xE000 := by simpa [isHalf] using h
  have valid : (distance + u).isValidChar := by
    right; simp only [distance]; omega
  have code : (standIn u).toNat = distance + u := by
    rw [standIn, Char.ofNat, dif_pos valid]
    rfl
  simp [half?, code, h]

end ShapedReply.Surrogate
