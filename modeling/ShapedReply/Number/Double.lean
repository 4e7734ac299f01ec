/-!
# Double-precision numbers

A number with a fraction or an exponent is held in double precision. The program never computes
with such numbers; it reads them from decimal text, compares them, asks whether they are whole, and
writes them. So a double is kept as exact data, and reading a decimal is one exact rounding
(`ofRatio`): nearest first, a tie to the even mantissa, infinity above the greatest double.

There is no constructor for "not a number", since no operation here produces one.
-/

namespace ShapedReply

/-- A double-precision number. `finite s m q` is `±m · 2^q`; a number built here has the mantissa
below `2^53` and either `q = -1074` or a mantissa of at least `2^52`, so that equal numbers are
equal data, the sign of zero apart. -/
inductive Double where
  /-- The number `±mantissa · 2^exponent`, with its sign. -/
  | finite (negative : Bool) (mantissa : Nat) (exponent : Int)
  /-- An infinity, with its sign. -/
  | infinite (negative : Bool)
  deriving DecidableEq

namespace Double

/-- A quotient rounded to the nearest whole number, a half to the even neighbour. -/
def roundHalfEven (num den : Nat) : Nat :=
  let q := num / den
  let r := num % den
  if 2 * r < den then q
  else if den < 2 * r then q + 1
  else if q % 2 = 0 then q
  else q + 1

/-- The fraction `num / den` divided by `2^q`, as a fraction. -/
def scaled (num den : Nat) (q : Int) : Nat × Nat :=
  if q < 0 then (num * Nat.pow 2 (-q).toNat, den) else (num, den * Nat.pow 2 q.toNat)

/-- The least exponent of a double. -/
def minExponent : Int := -1074

/-- The greatest exponent of a double. -/
def maxExponent : Int := 971

/-- The zero of a sign. -/
def zero (negative : Bool) : Double :=
  .finite negative 0 minExponent

/-- The exponent at which `num / den` has a mantissa of 53 bits, but not less than the least
exponent. The estimate from the bit lengths is one too high at most. -/
def exponentFor (num den : Nat) : Int :=
  let estimate : Int := (num.log2 : Int) - (den.log2 : Int) - 52
  let (n, d) := scaled num den estimate
  max (if n < Nat.pow 2 52 * d then estimate - 1 else estimate) minExponent

/-- The double nearest to `±num / den`, for a positive `den`. -/
def ofRatio (negative : Bool) (num den : Nat) : Double :=
  if num = 0 then zero negative
  else
    let q := exponentFor num den
    let (n, d) := scaled num den q
    let m := roundHalfEven n d
    let (m, q) := if m = Nat.pow 2 53 then (Nat.pow 2 52, q + 1) else (m, q)
    if q > maxExponent then .infinite negative else .finite negative m q

/-- The double nearest to a whole number; infinite when it is too large. -/
def ofInt (n : Int) : Double :=
  ofRatio (n < 0) n.natAbs 1

/-- The double nearest to `±m · 10^e`. Exponents that decide the answer by themselves are settled
before any power of ten is formed: a number of at least `10^310` is infinite, one below `10^-330`
is zero. -/
def ofDecimal (negative : Bool) (m : Nat) (e : Int) : Double :=
  if m = 0 then zero negative
  else
    let size : Int := (Nat.toDigits 10 m).length + e
    if size > 310 then .infinite negative
    else if size < -330 then zero negative
    else if e < 0 then ofRatio negative m (Nat.pow 10 (-e).toNat)
    else ofRatio negative (m * Nat.pow 10 e.toNat) 1

/-- Whether a double is a number on the line. -/
def isFinite : Double → Bool
  | .finite .. => true
  | .infinite _ => false

/-- A natural number with a sign. -/
def signed (negative : Bool) (n : Nat) : Int :=
  if negative then -(n : Int) else n

/-- The whole number that a double is, if it is one. -/
def toInt? : Double → Option Int
  | .finite negative m q =>
    if q < 0 then
      if m % Nat.pow 2 (-q).toNat = 0 then some (signed negative (m / Nat.pow 2 (-q).toNat))
      else none
    else some (signed negative (m * Nat.pow 2 q.toNat))
  | .infinite _ => none

/-- Whether two doubles are the same number: equal data, or zeros of either sign. -/
def same : Double → Double → Bool
  | .finite _ 0 _, .finite _ 0 _ => true
  | a, b => a == b

end Double

end ShapedReply
