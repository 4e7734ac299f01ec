import ShapedReply.Catalog.Declare
import ShapedReply.JsonSchema.Writer
import ShapedReply.Schema.Tagged

/-!
# What a schema needs from a catalog

The names that a schema refers to, directly or through other definitions, are collected breadth
first. Names that nothing is known about are left out. A schema and what it needs make a complete
document.
-/

namespace ShapedReply

namespace Catalog

/-- The first of some names that is known, with its definition and the names after it. -/
def nextKnown (known : Table Definition) : List String → Option (String × Definition × List String)
  | [] => none
  | name :: rest => match known.get? name with
    | some d => some (name, d, rest)
    | none => nextKnown known rest

/-- The definitions that some names need. Each collected one is taken out of what is known, so their
number bounds the search. -/
def collect : Nat → Table Definition → List String → Table Definition
  | 0, _, _ => []
  | n + 1, known, pending => match nextKnown known pending with
    | some (name, d, rest) =>
      (name, d) :: collect n (known.erase name) (rest ++ d.toSchema.references)
    | none => []

/-- The definitions that a schema needs. -/
def needed (c : Catalog) (s : Schema) : Table Definition :=
  collect c.definitions.length c.definitions s.references

/-- The document of a schema with everything it needs. -/
def document (c : Catalog) (s : Schema) : Except SchemaError Value :=
  s.toDocumentWith ((c.needed s).mapEntries Definition.toSchema)

/-- The document of what is known under a name. -/
def documentOf (c : Catalog) (name : String) : Except CatalogError Value :=
  match c.resolve name with
  | some d => (c.document d.toSchema).mapError .schema
  | none => .error (.notFound name)

/-! ## The catalog as a value -/

/-- A text, or null. -/
def textOrNull : Option String → Value
  | some s => .str s
  | none => .null

/-- An enum as a value. -/
def enumToValue (e : EnumEntry) : Value :=
  .map [("name", .str e.name), ("values", .array (e.values.map fun v =>
    .map [("name", .str v.value), ("alias", textOrNull v.spelling),
      ("description", textOrNull v.description)]))]

/-- A class as a value. -/
def classToValue (e : ClassEntry) : Except SchemaError Value := do
  let properties ← e.declared.mapM fun p => do
    let type ← p.schema.toTagged
    return Value.map [("name", .str p.name), ("type", type),
      ("description", p.description.getD .null)]
  return .map [("name", .str e.name), ("properties", .array properties)]

/-- The whole catalog as a value. -/
def toValue (c : Catalog) : Except SchemaError Value := do
  let classes ← c.classes.mapM fun e => classToValue e.2
  return .map [("enums", .array (c.enums.map fun e => enumToValue e.2)),
    ("classes", .array classes)]

/-- The whole catalog as a text of ASCII characters. -/
def toText (c : Catalog) (indent : Option Nat) : Except SchemaError String :=
  c.toValue.map fun v => String.ofList (v.write { ascii := true, indent })

end Catalog

end ShapedReply
