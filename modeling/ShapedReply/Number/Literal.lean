import ShapedReply.Number.Double
import ShapedReply.Text.Blank
import ShapedReply.Text.DecimalDigit

/-!
# Number literals in answers

An answer may spell a number as text, with digits of any script. Two grammars are read, always
against the whole text: an integer literal is an optional sign and digits; a decimal literal adds a
fraction and an exponent. The limit on the digits of a whole number holds here and in value text,
and also where a whole number is written.
-/

namespace ShapedReply

/-- A whole number may be spelled with at most this many digits. -/
def maxIntegerDigits : Nat := 4300

/-- The wording for a whole number with too many digits. -/
def integerTooLongMessage (digits : Nat) : String :=
  "Exceeds the limit (" ++ toString maxIntegerDigits
    ++ " digits) for integer string conversion: value has " ++ toString digits
    ++ " digits; use sys.set_int_max_str_digits() to increase the limit"

/-- Whether a whole number can be written: it has at most that many digits. -/
def isWritableInteger (n : Int) : Bool :=
  (Nat.toDigits 10 n.natAbs).length ≤ maxIntegerDigits

/-- The wording for a whole number that cannot be written. -/
def integerUnwritableMessage : String :=
  "Exceeds the limit (" ++ toString maxIntegerDigits
    ++ " digits) for integer string conversion; use sys.set_int_max_str_digits()"
    ++ " to increase the limit"

namespace Literal

open Text

/-- Takes an optional sign off a text: whether it is a minus, and the rest. -/
def takeSign : Text → Bool × Text
  | '-' :: r => (true, r)
  | '+' :: r => (false, r)
  | r => (false, r)

/-- An integer literal: its sign and its digits. -/
def integer? (t : Text) : Option (Bool × List Char) :=
  let (negative, ds) := takeSign t
  if !ds.isEmpty && ds.all isDecimalDigit then some (negative, ds) else none

/-- A decimal literal as it is spelled: `±whole.part · 10^exponent`. -/
structure Spelled where
  /-- Whether the literal has a minus sign. -/
  negative : Bool
  /-- The digits before the point. -/
  whole : List Char
  /-- The digits after the point. -/
  part : List Char
  /-- The written exponent, zero when there is none. -/
  exponent : Int

/-- The exponent that ends a decimal literal: nothing at all, or an `e`, a sign and digits. -/
def exponent? : Text → Option Int
  | [] => some 0
  | c :: r =>
    if c == 'e' || c == 'E' then
      (integer? r).map fun (negative, ds) => Double.signed negative (digitsValue ds)
    else none

/-- A decimal literal: digits around an optional point, at least one of them, and an exponent. -/
def decimal? (t : Text) : Option Spelled :=
  let (negative, r) := takeSign t
  let whole := r.takeWhile isDecimalDigit
  let (part, r) := match r.dropWhile isDecimalDigit with
    | '.' :: r => (r.takeWhile isDecimalDigit, r.dropWhile isDecimalDigit)
    | r => ([], r)
  if whole.isEmpty && part.isEmpty then none
  else (exponent? r).map fun e => ⟨negative, whole, part, e⟩

/-- The mantissa of a spelled decimal: all its digits as one number. -/
def Spelled.mantissa (s : Spelled) : Nat :=
  digitsValue (s.whole ++ s.part)

/-- The power of ten by which the mantissa is multiplied. -/
def Spelled.scale (s : Spelled) : Int :=
  s.exponent - s.part.length

/-- The double nearest to a spelled decimal. -/
def Spelled.toDouble (s : Spelled) : Double :=
  Double.ofDecimal s.negative s.mantissa s.scale

end Literal

end ShapedReply
