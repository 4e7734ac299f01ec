import ShapedReply.Text.Blank

/-!
# Digits, names and parts of texts

The characters of plain names and numbers, which are ASCII characters, and the search for one text
inside another. Bare keys and the variables of templates are plain names.
-/

namespace ShapedReply.Text

/-- Whether a character is one of the ten ASCII digits. -/
def isAsciiDigit (c : Char) : Bool := '0' ≤ c && c ≤ '9'

/-- Whether a character may start a plain name: a letter or an underscore. -/
def isNameStart (c : Char) : Bool :=
  ('a' ≤ c && c ≤ 'z') || ('A' ≤ c && c ≤ 'Z') || c == '_'

/-- Whether a character may stand in a plain name. -/
def isNamePart (c : Char) : Bool :=
  isNameStart c || isAsciiDigit c

/-- Whether a text occurs in another. -/
def occursIn (part : Text) : Text → Bool
  | [] => part.isEmpty
  | c :: r => part.isPrefixOf (c :: r) || occursIn part r

end ShapedReply.Text
