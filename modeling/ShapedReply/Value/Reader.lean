import ShapedReply.Number.Literal
import ShapedReply.Text.Surrogate
import ShapedReply.Text.Word
import ShapedReply.Value.Basic

/-!
# Reading strict value text

The strict reader accepts exactly one value with value blanks around it. Faults are met from left to
right: a name for an infinite number or for no number, and a whole number with too many digits, are
reported when they are met, even if the text goes wrong later.

The reader recurses on a budget that the length of the text bounds, so that it is structurally
total; `Value.read` hides it.
-/

namespace ShapedReply

/-- Why a text is not strict value text. -/
inductive ReadError where
  /-- The text does not follow the grammar. -/
  | malformed
  /-- The text names a number that strict value text does not have. -/
  | rejectedConstant (name : String)
  /-- A whole number has more digits than the limit. -/
  | integerTooLong (digits : Nat)
  deriving DecidableEq

/-- The wording of a fault; a text off the grammar has none. -/
def ReadError.message? : ReadError → Option String
  | .malformed => none
  | .rejectedConstant name => some ("Non-standard JSON constant: " ++ name)
  | .integerTooLong digits => some (integerTooLongMessage digits)

namespace Reader

open Text

/-! ## Strings -/

/-- The value of a hexadecimal digit. -/
def hexValue? (c : Char) : Option Nat :=
  if '0' ≤ c ∧ c ≤ '9' then some (c.toNat - '0'.toNat)
  else if 'a' ≤ c ∧ c ≤ 'f' then some (c.toNat - 'a'.toNat + 10)
  else if 'A' ≤ c ∧ c ≤ 'F' then some (c.toNat - 'A'.toNat + 10)
  else none

/-- The code unit of four hexadecimal digits. -/
def hexUnit? (a b c d : Char) : Option Nat := do
  let a ← hexValue? a
  let b ← hexValue? b
  let c ← hexValue? c
  let d ← hexValue? d
  return ((a * 16 + b) * 16 + c) * 16 + d

/-- The character that an escape of one letter stands for. -/
def simpleEscape? : Char → Option Char
  | '"' => some '"'
  | '\\' => some '\\'
  | '/' => some '/'
  | 'b' => some '\x08'
  | 'f' => some '\x0c'
  | 'n' => some '\n'
  | 'r' => some '\r'
  | 't' => some '\t'
  | _ => none

/-- Reads the inside of a string up to its closing quote, as code units: a plain character counts as
its code point, an escape as its unit. Control characters are refused. -/
def units : Text → Except ReadError (List Nat × Text)
  | [] => .error .malformed
  | '"' :: r => .ok ([], r)
  | '\\' :: 'u' :: a :: b :: c :: d :: r =>
    match hexUnit? a b c d with
    | some u => (units r).map fun (us, r) => (u :: us, r)
    | none => .error .malformed
  | '\\' :: c :: r =>
    match simpleEscape? c with
    | some e => (units r).map fun (us, r) => (e.toNat :: us, r)
    | none => .error .malformed
  | c :: r =>
    if c.toNat < 0x20 || c == '\\' then .error .malformed
    else (units r).map fun (us, r) => (c.toNat :: us, r)

/-- The character of a unit on its own. A half of a surrogate pair without its partner reads as its
stand-in. -/
def unitChar (u : Nat) : Char :=
  if Surrogate.isHalf u then Surrogate.standIn u else Char.ofNat u

/-- The characters that code units spell: a surrogate pair joins to one character. -/
def joinUnits : List Nat → List Char
  | [] => []
  | [u] => [unitChar u]
  | high :: low :: us =>
    if Surrogate.isHigh high && Surrogate.isLow low then Surrogate.join high low :: joinUnits us
    else unitChar high :: joinUnits (low :: us)

/-- Reads a string after its opening quote. -/
def string (t : Text) : Except ReadError (String × Text) :=
  (units t).map fun (us, r) => (String.ofList (joinUnits us), r)

/-! ## Numbers -/

/-- Takes the digits before the point: a single zero, or digits that do not start with zero. -/
def takeWhole : Text → Option (List Char × Text)
  | '0' :: r => some (['0'], r)
  | c :: r =>
    if Text.isAsciiDigit c then
      some (c :: r.takeWhile Text.isAsciiDigit, r.dropWhile Text.isAsciiDigit)
    else none
  | [] => none

/-- Takes a fraction if there is one: a point with at least one digit. -/
def takeFraction : Text → List Char × Text
  | '.' :: r =>
    if (r.takeWhile Text.isAsciiDigit).isEmpty then ([], '.' :: r)
    else (r.takeWhile Text.isAsciiDigit, r.dropWhile Text.isAsciiDigit)
  | r => ([], r)

/-- Takes an exponent if there is one: the letter, an optional sign and at least one digit. -/
def takeExponent : Text → Option Int × Text
  | [] => (none, [])
  | c :: r =>
    if c == 'e' || c == 'E' then
      let (negative, ds) := Literal.takeSign r
      if (ds.takeWhile Text.isAsciiDigit).isEmpty then (none, c :: r)
      else (some (Double.signed negative (digitsValue (ds.takeWhile Text.isAsciiDigit))),
        ds.dropWhile Text.isAsciiDigit)
    else (none, c :: r)

/-- Reads a number behind its sign. Without a fraction and an exponent it is whole, within the limit
on its digits. -/
def numberAfter (negative : Bool) (t : Text) : Except ReadError (Value × Text) :=
  match takeWhole t with
  | none => .error .malformed
  | some (whole, r) =>
    let (part, r) := takeFraction r
    let (exponent, r) := takeExponent r
    if part.isEmpty && exponent.isNone then
      if whole.length > maxIntegerDigits then .error (.integerTooLong whole.length)
      else .ok (.int (Double.signed negative (digitsValue whole)), r)
    else
      let spelled : Literal.Spelled := ⟨negative, whole, part, exponent.getD 0⟩
      .ok (.float spelled.toDouble, r)

/-- Reads a number. -/
def number : Text → Except ReadError (Value × Text)
  | '-' :: r => numberAfter true r
  | r => numberAfter false r

/-! ## Values -/

mutual

/-- Reads one value from the start of a text. -/
def value : Nat → Text → Except ReadError (Value × Text)
  | 0, _ => .error .malformed
  | budget + 1, t =>
    match t with
    | '"' :: r => (string r).map fun (s, r) => (.str s, r)
    | '{' :: r =>
      match skipValueBlanks r with
      | '}' :: r => .ok (.map [], r)
      | r => (members budget r).map fun (es, r) => (.map (Table.ofList es), r)
    | '[' :: r =>
      match skipValueBlanks r with
      | ']' :: r => .ok (.array [], r)
      | r => (elements budget r).map fun (vs, r) => (.array vs, r)
    | 'n' :: 'u' :: 'l' :: 'l' :: r => .ok (.null, r)
    | 't' :: 'r' :: 'u' :: 'e' :: r => .ok (.bool true, r)
    | 'f' :: 'a' :: 'l' :: 's' :: 'e' :: r => .ok (.bool false, r)
    | 'N' :: 'a' :: 'N' :: _ => .error (.rejectedConstant "NaN")
    | 'I' :: 'n' :: 'f' :: 'i' :: 'n' :: 'i' :: 't' :: 'y' :: _ =>
      .error (.rejectedConstant "Infinity")
    | '-' :: 'I' :: 'n' :: 'f' :: 'i' :: 'n' :: 'i' :: 't' :: 'y' :: _ =>
      .error (.rejectedConstant "-Infinity")
    | t => number t

/-- Reads the members of a map after its brace, up to the closing brace. -/
def members : Nat → Text → Except ReadError (List (String × Value) × Text)
  | 0, _ => .error .malformed
  | budget + 1, t =>
    match t with
    | '"' :: r => do
      let (key, r) ← string r
      match skipValueBlanks r with
      | ':' :: r => do
        let (v, r) ← value budget (skipValueBlanks r)
        match skipValueBlanks r with
        | '}' :: r => .ok ([(key, v)], r)
        | ',' :: r => (members budget (skipValueBlanks r)).map fun (es, r) => ((key, v) :: es, r)
        | _ => .error .malformed
      | _ => .error .malformed
    | _ => .error .malformed

/-- Reads the items of an array after its bracket, up to the closing bracket. -/
def elements : Nat → Text → Except ReadError (List Value × Text)
  | 0, _ => .error .malformed
  | budget + 1, t => do
    let (v, r) ← value budget t
    match skipValueBlanks r with
    | ']' :: r => .ok ([v], r)
    | ',' :: r => (elements budget (skipValueBlanks r)).map fun (vs, r) => (v :: vs, r)
    | _ => .error .malformed

end

/-- A budget that no text exhausts: each character is behind at most two steps. -/
def budget (t : Text) : Nat := 2 * t.length + 2

end Reader

/-- Reads strict value text: one value with blanks around it and nothing else. -/
def Value.read (t : Text) : Except ReadError Value := do
  let (v, r) ← Reader.value (Reader.budget t) (Text.skipValueBlanks t)
  match Text.skipValueBlanks r with
  | [] => .ok v
  | _ => .error .malformed

/-- Whether a text is strict value text. -/
def isStrict (t : Text) : Bool :=
  match Value.read t with
  | .ok _ => true
  | .error _ => false

end ShapedReply
