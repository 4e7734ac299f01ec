/-!
# Blank characters and trimming

The text of an answer arrives with blanks around and inside it. Two classes matter: `isBlank`, the
Unicode blanks that trimming and the loose grammar skip, and `isValueBlank`, the four blanks that
strict value text allows between its tokens. Every value blank is a blank
(`isBlank_of_isValueBlank`).
-/

namespace ShapedReply

/-- Texts are worked on character by character. The characters U+105800 to U+105FFF stand for halves
of surrogate pairs in them, not for themselves. -/
abbrev Text := List Char

namespace Text

/-- The blanks of loose text: the ASCII layout characters, the four separators before the space,
and the Unicode spaces and line breaks. The zero-width space and the byte order mark are not
blanks. -/
def isBlank (c : Char) : Bool :=
  let n := c.toNat
  (0x09 ≤ n && n ≤ 0x0D) || (0x1C ≤ n && n ≤ 0x20) || n == 0x85 || n == 0xA0 || n == 0x1680
    || (0x2000 ≤ n && n ≤ 0x200A) || n == 0x2028 || n == 0x2029 || n == 0x202F || n == 0x205F
    || n == 0x3000

/-- The blanks of strict value text: space, tab, line feed and carriage return. -/
def isValueBlank (c : Char) : Bool :=
  c == ' ' || c == '\t' || c == '\n' || c == '\r'

/-- A text without its leading blanks. -/
def trimStart (t : Text) : Text :=
  t.dropWhile isBlank

/-- A text without its trailing blanks. -/
def trimEnd (t : Text) : Text :=
  (t.reverse.dropWhile isBlank).reverse

/-- A text without the blanks around it. -/
def trim (t : Text) : Text :=
  trimEnd (trimStart t)

/-- A text without its leading value blanks. -/
def skipValueBlanks (t : Text) : Text :=
  t.dropWhile isValueBlank

/-- The four blanks of strict value text. -/
theorem eq_of_isValueBlank {c : Char} (h : isValueBlank c = true) :
    c = ' ' ∨ c = '\t' ∨ c = '\n' ∨ c = '\r' := by
  simpa [isValueBlank, or_assoc] using h

/-- Every value blank is a blank. -/
theorem isBlank_of_isValueBlank {c : Char} (h : isValueBlank c = true) : isBlank c = true := by
  rcases eq_of_isValueBlank h with rfl | rfl | rfl | rfl <;> rfl

end Text

end ShapedReply
