import ShapedReply.KeyStyle
import ShapedReply.Target.Basic
import ShapedReply.Value.Fold

/-!
# Restyling keys for a target

Before a value is decoded its keys are renamed to those that the target expects. A key that is the
name or the given key of a field counts as it stands; the others are matched by their snake style. A
key that matches nothing is kept. Inside the fields the renaming goes on by their types.
-/

namespace ShapedReply

namespace Restyle

/-- A part that waits for its target. -/
abbrev Waiting := Part (Target → Value)

/-- Puts an entry unless the table has the name. -/
def putNew {α : Type} (t : Table α) (name : String) (a : α) : Table α :=
  if Table.has t name then t else Table.put t name a

/-- The spellings under which a field is known: its name and its given key. -/
def spellings (f : FieldInfo) : List String :=
  (f.name :: f.givenAs.toList).filter (· != "")

/-- The keys that count as they stand, each with the key of its field. -/
def exactKeys (fields : List (FieldInfo × Target)) : Table String :=
  fields.foldl (fun t f => (spellings f.1).foldl (fun t s => putNew t s f.1.knownAs) t) []

/-- The keys in snake style, each with the key of its field. -/
def looseKeys (fields : List (FieldInfo × Target)) : Table String :=
  fields.foldl
    (fun t f => (spellings f.1).foldl (fun t s => putNew t (KeyStyle.snakeKey s) f.1.knownAs) t) []

/-- The types of the fields by their keys. -/
def types (fields : List (FieldInfo × Target)) : Table Target :=
  fields.foldl (fun t f => Table.put t f.1.knownAs f.2) []

/-- The entries of a map whose keys count as they stand, under the keys of their fields. -/
def takeExact (exact : Table String) (entries : List (String × Waiting)) : Table Waiting :=
  entries.foldl (fun t e => match Table.get? exact e.1 with
    | some key => Table.put t key e.2
    | none => t) []

/-- Adds the other entries: under the key that their snake style matches, if that is still free, and
otherwise under their own. -/
def addLoose (exact loose : Table String) (t : Table Waiting) (entries : List (String × Waiting)) :
    Table Waiting :=
  entries.foldl (fun t e =>
    if Table.has exact e.1 then t
    else match Table.get? loose (KeyStyle.snakeKey e.1) with
      | some key => if Table.has t key then putNew t e.1 e.2 else Table.put t key e.2
      | none => putNew t e.1 e.2) t

/-- A map with its keys renamed to those of a model's fields, each field's part restyled by its
type. -/
def renameKeys (model : Target) (fields : List (FieldInfo × Target))
    (entries : List (String × Waiting)) : Value :=
  let exact := exactKeys fields
  let renamed := addLoose exact (looseKeys fields) (takeExact exact entries) entries
  .map (renamed.map fun e => (e.1, match Table.get? (types fields) e.1 with
    | some t => e.2.answer (Target.inside model t)
    | none => e.2.value))

/-- A value against a model: only a map is renamed. -/
def byModel (v : Value) (entries : List (String × Waiting)) (model : Target) : Value :=
  match v, model with
  | .map _, .model _ _ fields => renameKeys model fields entries
  | _, _ => v

/-- The items of an array against one target. -/
def byItem (v : Value) (items : List Waiting) (t : Target) : Value :=
  match v with
  | .array _ => .array (items.map (·.answer t))
  | _ => v

/-- A value against a target, given what its parts answer. A choice renames only when exactly one
of its members is a model. -/
def node (v : Value) (items : List Waiting) (entries : List (String × Waiting)) : Target → Value
  | .model info options fields => byModel v entries (.model info options fields)
  | .annotated _ inner => node v items entries inner
  | .union _ members =>
    match members.filter Target.isModel with
    | [model] => byModel v entries model
    | _ => v
  | .list item => byItem v items item
  | .set item => byItem v items item
  | .frozenSet item => byItem v items item
  | .rowOf item => byItem v items item
  | .row (item :: _) => byItem v items item
  | .table _ value =>
    match v with
    | .map _ => .map (entries.map fun e => (e.1, e.2.answer value))
    | _ => v
  | _ => v

end Restyle

/-- A value with its keys renamed to those that a target expects. -/
def restyle (v : Value) (t : Target) : Value :=
  v.fold Restyle.node t

end ShapedReply
