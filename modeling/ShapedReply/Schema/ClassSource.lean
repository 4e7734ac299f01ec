import ShapedReply.JsonSchema.Reader

/-!
# Classes that describe themselves

A class can be the source of a schema. It may declare one, it may come with a schema document, and
an enumeration has the texts of its members. Documents and texts are made by the class itself and
not by this library, so they are given here as they come, and making them may fail for a reason of
the class's own.
-/

namespace ShapedReply

/-- What the library asks a class for. -/
structure ClassSource where
  /-- The name under which the schema of the class is registered. -/
  name : String
  /-- Whether the class may be extended while the program runs. -/
  dynamic : Bool := false
  /-- The schema that the class declares. -/
  declared : Option Schema := none
  /-- The schema document of the class, if it is of a sort that has one. -/
  document : Except String (Option Value) := .ok none
  /-- The texts of its members, if it is an enumeration. -/
  members : Option (Except String (List String)) := none

/-- Why a class has no schema. -/
inductive DescribeError where
  /-- The class says nothing from which a schema could be derived. -/
  | undescribed
  /-- The document of the class cannot be read. -/
  | unreadable (reason : SchemaError)
  /-- The class fails to make its document or the texts of its members. -/
  | failed (reason : String)

/-- The schema of a class: the one it declares, the one of its document, or the enum of its
members. -/
def ClassSource.describe (t : ClassSource) : Except DescribeError Schema :=
  match t.declared with
  | some s => .ok s
  | none => match t.document with
    | .error reason => .error (.failed reason)
    | .ok (some document) => (Schema.ofDocument document).mapError .unreadable
    | .ok none => match t.members with
      | some (.ok texts) => .ok (.enum texts [])
      | some (.error reason) => .error (.failed reason)
      | none => .error .undescribed

end ShapedReply
