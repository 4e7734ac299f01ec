import ShapedReply.Text.Blank

/-!
# Lines

Texts are cut into lines at every line break of Unicode, the pair of carriage return and line feed
counting as one; a break at the very end opens no further line. Rows of strings are joined with a
separator between them.
-/

namespace ShapedReply.Text

/-- Whether a character ends a line. -/
def isLineBreak (c : Char) : Bool :=
  let n := c.toNat
  (0x0A ≤ n && n ≤ 0x0D) || (0x1C ≤ n && n ≤ 0x1E) || n == 0x85 || n == 0x2028 || n == 0x2029

/-- The lines of the rest of a text, given what was collected, in reverse, of the current one. -/
def linesFrom : Text → Text → List Text
  | [], [] => []
  | acc, [] => [acc.reverse]
  | acc, '\x0d' :: '\n' :: r => acc.reverse :: linesFrom [] r
  | acc, c :: r => if isLineBreak c then acc.reverse :: linesFrom [] r else linesFrom (c :: acc) r

/-- The lines of a text, without their breaks. -/
def lines (t : Text) : List Text :=
  linesFrom [] t

/-- Strings in a row with a separator between them. -/
def joinWith (separator : String) : List String → String
  | [] => ""
  | [s] => s
  | s :: rest => s ++ separator ++ joinWith separator rest

end ShapedReply.Text
