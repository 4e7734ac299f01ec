import ShapedReply.Number.Shortest
import ShapedReply.Text.Printable
import ShapedReply.Value.Writer

/-!
# Displaying values in messages

Messages show values in a display of their own: names with capitals for null and the truth values,
single quotes around strings, and escapes for what does not print. A string on its own is shown
without quotes.
-/

namespace ShapedReply.Value

/-- Doubles in a display. -/
def displayNumbers : NumberStyle := { infinity := "inf" }

/-- The quote around a displayed string: single, unless the string has single quotes and no double
ones. -/
def displayQuote (s : List Char) : Char :=
  if s.contains '\'' && !s.contains '"' then '"' else '\''

/-- The last digits of a number in base sixteen, in lower case. -/
def hexDigits (width n : Nat) : List Char :=
  (List.range width).reverse.map fun i => Writer.hexDigit (n / Nat.pow 16 i % 16)

/-- The escape of a character that does not print. -/
def displayEscape (c : Char) : List Char :=
  let n := (Surrogate.half? c).getD c.toNat
  if n < 0x100 then ['\\', 'x'] ++ hexDigits 2 n
  else if n < 0x10000 then ['\\', 'u'] ++ hexDigits 4 n
  else ['\\', 'U'] ++ hexDigits 8 n

/-- A character inside a displayed string. -/
def displayChar (quote c : Char) : List Char :=
  if c == quote || c == '\\' then ['\\', c]
  else if c == '\n' then ['\\', 'n']
  else if c == '\r' then ['\\', 'r']
  else if c == '\t' then ['\\', 't']
  else if Text.isPrintable c then [c]
  else displayEscape c

/-- A string in quotes. -/
def displayString (s : String) : List Char :=
  let quote := displayQuote s.toList
  [quote] ++ s.toList.flatMap (displayChar quote) ++ [quote]

mutual

/-- A value as messages quote it. -/
def quoted : Value → List Char
  | .null => "None".toList
  | .bool true => "True".toList
  | .bool false => "False".toList
  | .int n => Writer.integer n
  | .float x => displayNumbers.write x
  | .str s => displayString s
  | .array [] => ['[', ']']
  | .array (v :: vs) => ['['] ++ quoted v ++ quotedItems vs ++ [']']
  | .map [] => ['{', '}']
  | .map ((k, v) :: es) =>
    ['{'] ++ displayString k ++ [':', ' '] ++ quoted v ++ quotedEntries es ++ ['}']

/-- The further items of a quoted array. -/
def quotedItems : List Value → List Char
  | [] => []
  | v :: vs => [',', ' '] ++ quoted v ++ quotedItems vs

/-- The further entries of a quoted map. -/
def quotedEntries : List (String × Value) → List Char
  | [] => []
  | (k, v) :: es => [',', ' '] ++ displayString k ++ [':', ' '] ++ quoted v ++ quotedEntries es

end

/-- A value as messages show it: a string as it is, anything else quoted. -/
def display : Value → String
  | .str s => s
  | v => String.ofList v.quoted

end ShapedReply.Value
