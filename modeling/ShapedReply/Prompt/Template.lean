import ShapedReply.Table
import ShapedReply.Text.Word
import ShapedReply.Value.Writer

/-!
# Templates

A template is a text with places for variables: a name between two pairs of braces, with blanks
around it if one likes. A place whose variable is not given stays as it is. What is filled in is not
looked at again.
-/

namespace ShapedReply.Prompt

/-- Whether the name of a variable may go on with a character. -/
def continuesName (c : Char) : Bool :=
  Text.isNamePart c || c == '.'

/-- The place at the start of a text: the name of its variable and the rest of the text. -/
def place? : Text → Option (Text × Text)
  | '{' :: '{' :: r =>
    let r := Text.trimStart r
    let name := r.takeWhile continuesName
    match name, Text.trimStart (r.dropWhile continuesName) with
    | c :: _, '}' :: '}' :: rest => if Text.isNameStart c then some (name, rest) else none
    | _, _ => none
  | _ => none

/-- A value as it is filled in: a string as it is, all else as value text. -/
def filling : Value → Text
  | .str s => s.toList
  | v => v.toLine.toList

/-- A text with its places filled, given how many characters still belong to the last place. -/
def fillFrom (bindings : Table Value) : Nat → Text → Text
  | _, [] => []
  | n + 1, _ :: r => fillFrom bindings n r
  | 0, c :: r => match place? (c :: r) with
    | some (name, rest) =>
      let length := r.length - rest.length
      match bindings.get? (String.ofList name) with
      | some v => filling v ++ fillFrom bindings length r
      | none => (c :: r.take length) ++ fillFrom bindings length r
    | none => c :: fillFrom bindings 0 r

/-- A template with its places filled. -/
def fill (template : String) (bindings : Table Value) : String :=
  String.ofList (fillFrom bindings 0 template.toList)

end ShapedReply.Prompt
