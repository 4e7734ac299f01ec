import ShapedReply.Number.Shortest
import ShapedReply.Value.Basic
import ShapedReply.Text.Blank
import ShapedReply.Text.Surrogate

/-!
# Writing value text

A value is written on one line, or with a line for each part and a fixed indent for each level. Only
what strict value text forbids inside a string is escaped; in ASCII style every other character
beyond the printable ASCII ones is escaped too.
-/

namespace ShapedReply

/-- How value text is laid out. -/
structure WriteStyle where
  /-- Whether characters beyond printable ASCII are escaped. -/
  ascii : Bool := false
  /-- The blanks of one level when each part has a line of its own; none for a single line. -/
  indent : Option Nat := none

namespace Writer

/-- Doubles in value text. -/
def numbers : NumberStyle := { infinity := "Infinity" }

/-- The lower-case hexadecimal digit of a number below sixteen. -/
def hexDigit (n : Nat) : Char :=
  Nat.digitChar n

/-- The escape of a code unit. -/
def unitEscape (u : Nat) : List Char :=
  ['\\', 'u', hexDigit (u / 0x1000 % 16), hexDigit (u / 0x100 % 16), hexDigit (u / 0x10 % 16),
    hexDigit (u % 16)]

/-- The escape of a character by its code units: one, or a surrogate pair. A stand-in is escaped as
the half that it stands for. -/
def charEscape (c : Char) : List Char :=
  let n := (Surrogate.half? c).getD c.toNat
  if n < 0x10000 then unitEscape n
  else unitEscape (0xD800 + (n - 0x10000) / 0x400) ++ unitEscape (0xDC00 + (n - 0x10000) % 0x400)

/-- A character inside a string. -/
def char (style : WriteStyle) (c : Char) : List Char :=
  match c with
  | '"' => ['\\', '"']
  | '\\' => ['\\', '\\']
  | '\n' => ['\\', 'n']
  | '\r' => ['\\', 'r']
  | '\t' => ['\\', 't']
  | '\x0c' => ['\\', 'f']
  | '\x08' => ['\\', 'b']
  | c =>
    if c.toNat < 0x20 || (style.ascii && 0x7E < c.toNat) then charEscape c else [c]

/-- A string with its quotes. -/
def string (style : WriteStyle) (s : String) : List Char :=
  ['"'] ++ s.toList.flatMap (char style) ++ ['"']

/-- A whole number. -/
def integer (n : Int) : List Char :=
  (if n < 0 then ['-'] else []) ++ Nat.toDigits 10 n.natAbs

/-- What stands before the first part of a container and after its last: a new line at the level
given, or nothing. -/
def lineBreak (style : WriteStyle) (level : Nat) : List Char :=
  match style.indent with
  | some n => '\n' :: List.replicate (n * level) ' '
  | none => []

/-- What stands between two parts of a container: a comma and a new line, or a comma and a space. -/
def separator (style : WriteStyle) (level : Nat) : List Char :=
  match style.indent with
  | some n => ',' :: '\n' :: List.replicate (n * level) ' '
  | none => [',', ' ']

mutual

/-- A value at a level. -/
def value (style : WriteStyle) : Nat → Value → List Char
  | _, .null => ['n', 'u', 'l', 'l']
  | _, .bool true => ['t', 'r', 'u', 'e']
  | _, .bool false => ['f', 'a', 'l', 's', 'e']
  | _, .int n => integer n
  | _, .float x => numbers.write x
  | _, .str s => string style s
  | _, .array [] => ['[', ']']
  | level, .array (v :: vs) =>
    ['['] ++ lineBreak style (level + 1) ++ value style (level + 1) v
      ++ items style (level + 1) vs ++ lineBreak style level ++ [']']
  | _, .map [] => ['{', '}']
  | level, .map ((k, v) :: es) =>
    ['{'] ++ lineBreak style (level + 1) ++ string style k ++ [':', ' ']
      ++ value style (level + 1) v ++ entries style (level + 1) es ++ lineBreak style level ++ ['}']

/-- The further items of an array, each after a separator. -/
def items (style : WriteStyle) : Nat → List Value → List Char
  | _, [] => []
  | level, v :: vs => separator style level ++ value style level v ++ items style level vs

/-- The further entries of a map, each after a separator. -/
def entries (style : WriteStyle) : Nat → List (String × Value) → List Char
  | _, [] => []
  | level, (k, v) :: es =>
    separator style level ++ string style k ++ [':', ' '] ++ value style level v
      ++ entries style level es

end

end Writer

namespace Value

/-- The text of a value in a style. -/
def write (v : Value) (style : WriteStyle) : Text :=
  Writer.value style 0 v

/-- The text of a value on one line. -/
def toLine (v : Value) : String :=
  String.ofList (v.write {})

/-- The text of a value with an indent, or on one line without one. -/
def toLines (v : Value) (indent : Option Nat) : String :=
  String.ofList (v.write { indent := indent })

/-- The text of a value on one line, in ASCII. -/
def toAscii (v : Value) : String :=
  String.ofList (v.write { ascii := true })

end Value

end ShapedReply
