import ShapedReply.Text.Blank
import ShapedReply.Text.Casing

/-!
# Key styles

Answers spell the keys of a record in the style they please: camel case, words with hyphens or
blanks, capitals. `KeyStyle.snake` brings a key to lower-case words joined by underscores, which is
the form in which keys are compared.
-/

namespace ShapedReply.KeyStyle

/-- Whether a character is an ASCII capital. -/
def isCapital (c : Char) : Bool := 'A' ≤ c && c ≤ 'Z'

/-- Whether a character is a small ASCII letter. -/
def isSmall (c : Char) : Bool := 'a' ≤ c && c ≤ 'z'

/-- Whether a character separates words: a blank or a hyphen. -/
def isSeparator (c : Char) : Bool := Text.isBlank c || c == '-'

/-- Each row of separators as one underscore; the flag tells that a row is being read. -/
def joinWords : Bool → Text → Text
  | _, [] => []
  | inRow, c :: r =>
    if isSeparator c then (if inRow then joinWords true r else '_' :: joinWords true r)
    else c :: joinWords false r

/-- An underscore before the last capital of a row of capitals that a small letter follows. -/
def splitAcronyms : Option Char → Text → Text
  | _, [] => []
  | before, c :: r =>
    if before.any isCapital && isCapital c && r.head?.any isSmall then
      '_' :: c :: splitAcronyms (some c) r
    else c :: splitAcronyms (some c) r

/-- An underscore before a capital that a small letter or a digit precedes. -/
def splitHumps : Option Char → Text → Text
  | _, [] => []
  | before, c :: r =>
    if before.any (fun b => isSmall b || ('0' ≤ b && b ≤ '9')) && isCapital c then
      '_' :: c :: splitHumps (some c) r
    else c :: splitHumps (some c) r

/-- A key as lower-case words joined by underscores. -/
def snake (key : Text) : Text :=
  Text.lower (splitHumps none (splitAcronyms none (joinWords false (Text.trim key))))

/-- A key in snake style, as a string. -/
def snakeKey (key : String) : String :=
  String.ofList (snake key.toList)

end ShapedReply.KeyStyle
