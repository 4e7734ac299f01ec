import ShapedReply.Number.Double

/-!
# The shortest decimal of a double

A double is written with the fewest digits that read back as the same double, and among those with
the digits nearest to it. The search looks at decimal grids of one digit, two digits, and so on: on
each grid only the two neighbours of the number can qualify, and they qualify when they lie in the
interval of numbers that round to it. Seventeen digits always suffice.
-/

namespace ShapedReply

/-- The decimal number `digits · 10^exponent`. -/
structure Decimal where
  /-- The digits as one natural number. -/
  digits : Nat
  /-- The power of ten by which they are multiplied. -/
  exponent : Int

namespace Decimal

/-- Compares `a · 2^p` with `b · 10^u` exactly: the two sides after both are made whole. -/
def balanced (a : Nat) (p : Int) (b : Nat) (u : Int) : Nat × Nat :=
  (a * Nat.pow 2 p.toNat * Nat.pow 10 (-u).toNat, b * Nat.pow 10 u.toNat * Nat.pow 2 (-p).toNat)

/-- The power of ten of the leading digit of `m · 2^q`, for a positive `m`: the greatest `e` with
`10^e ≤ m · 2^q`, found from an estimate that is too low by two at most. -/
def leadingExponent (m : Nat) (q : Int) : Int :=
  let estimate : Int := (((m.log2 : Int) + q) * 30103).fdiv 100000 - 1
  let reaches (e : Int) : Bool :=
    let (value, power) := balanced m q 1 e
    power ≤ value
  if reaches (estimate + 3) then estimate + 3
  else if reaches (estimate + 2) then estimate + 2
  else if reaches (estimate + 1) then estimate + 1
  else estimate

/-- The two numbers beside `m · 2^q` that bound what rounds to it, as multiples of `2^(q - 2)`.
Below a power of two the neighbours lie twice as dense. -/
def bounds (m : Nat) (q : Int) : Nat × Nat :=
  (if m = Nat.pow 2 52 && q > Double.minExponent then 4 * m - 1 else 4 * m - 2, 4 * m + 2)

/-- Whether `d · 10^u` rounds to `m · 2^q`. The bounds themselves round to an even mantissa. -/
def readsBack (m : Nat) (q : Int) (d : Nat) (u : Int) : Bool :=
  let (low, high) := bounds m q
  let (l, x) := balanced low (q - 2) d u
  let (h, y) := balanced high (q - 2) d u
  if m % 2 = 0 then l ≤ x && y ≤ h else l < x && y < h

/-- The point nearest to `m · 2^q` on the grid of unit `10^u` that rounds to it, if there is one; of
two equally near ones the even one. -/
def nearestOnGrid (m : Nat) (q u : Int) : Option Nat :=
  let (value, unit) := balanced m q 1 u
  let below := value / unit
  let rest := value % unit
  let belowFits := readsBack m q below u
  let aboveFits := readsBack m q (below + 1) u
  if belowFits && aboveFits then
    if 2 * rest < unit then some below
    else if unit < 2 * rest then some (below + 1)
    else if below % 2 = 0 then some below
    else some (below + 1)
  else if belowFits then some below
  else if aboveFits then some (below + 1)
  else none

/-- The first hit on the grids with `n` more digits, starting at unit `10^u`. -/
def searchGrids (m : Nat) (q : Int) : Nat → Int → Decimal
  | 0, _ => ⟨0, 0⟩
  | n + 1, u =>
    match nearestOnGrid m q u with
    | some d => ⟨d, u⟩
    | none => searchGrids m q n (u - 1)

/-- The shortest decimal that reads back as `m · 2^q`. -/
def shortest (m : Nat) (q : Int) : Decimal :=
  if m = 0 then ⟨0, 0⟩ else searchGrids m q 18 (leadingExponent m q)

end Decimal

/-- How a double is laid out as text. -/
structure NumberStyle where
  /-- The least power of ten of the leading digit that is written without an exponent. -/
  positionalFrom : Int := -4
  /-- The least power of ten of the leading digit that is written with an exponent again. -/
  positionalBelow : Int := 16
  /-- How many digits an exponent has at least. -/
  exponentWidth : Nat := 2
  /-- The name of infinity. -/
  infinity : String

namespace NumberStyle

/-- Digits with enough zeros in front to make the width. -/
def padded (width n : Nat) : List Char :=
  let ds := Nat.toDigits 10 n
  List.replicate (width - ds.length) '0' ++ ds

/-- The digits of a number without the zeros at their end. -/
def significant (n : Nat) : List Char :=
  ((Nat.toDigits 10 n).reverse.dropWhile (· == '0')).reverse

/-- A positive decimal in a style; zero is `0.0`. A number without an exponent always shows a
fraction. -/
def magnitude (style : NumberStyle) (d : Decimal) : List Char :=
  let ds := significant d.digits
  let lead : Int := (Nat.toDigits 10 d.digits).length + d.exponent - 1
  match ds with
  | [] => ['0', '.', '0']
  | first :: rest =>
    if style.positionalFrom ≤ lead && lead < style.positionalBelow then
      if lead < 0 then ['0', '.'] ++ List.replicate ((-lead).toNat - 1) '0' ++ ds
      else
        let n := lead.toNat + 1
        let whole := ds.take n ++ List.replicate (n - ds.length) '0'
        let part := ds.drop n
        whole ++ ['.'] ++ (if part.isEmpty then ['0'] else part)
    else
      [first] ++ (if rest.isEmpty then [] else '.' :: rest) ++ ['e']
        ++ [if lead < 0 then '-' else '+'] ++ padded style.exponentWidth lead.natAbs

/-- A double in a style. -/
def write (style : NumberStyle) : Double → List Char
  | .finite negative m q =>
    (if negative then ['-'] else []) ++ style.magnitude (Decimal.shortest m q)
  | .infinite negative => (if negative then ['-'] else []) ++ style.infinity.toList

end NumberStyle

end ShapedReply
