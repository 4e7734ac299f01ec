import ShapedReply.Schema.ClassSource
import ShapedReply.Target.Basic

/-!
# The schema of a class

A model is described by a JSON Schema document that is derived from its fields; nested classes are
definitions of the document, sorted by name, and a model that refers to itself is one of them. The
members of an enumeration have the texts of their values. With these, a class among the targets is a
source of a schema (`Target.source`).
-/

namespace ShapedReply

namespace Target

/-- The reference to a class. -/
def refTo (name : String) : List (String × Value) :=
  [("$ref", .str (JsonSchema.definitionsPrefix ++ name))]

/-- The type that all values share, as an entry; none if they differ. -/
def sharedType (vs : List Value) : List (String × Value) :=
  if vs.isEmpty then []
  else if vs.all fun v => v.kind == .string then [("type", .str "string")]
  else if vs.all fun v => v.kind == .int then [("type", .str "integer")]
  else if vs.all fun v => v.kind == .float then [("type", .str "number")]
  else if vs.all fun v => v.kind == .bool then [("type", .str "boolean")]
  else []

/-- The document of a choice of values. -/
def valuesDocument (vs : List Value) : List (String × Value) :=
  [("enum", .array vs)] ++ sharedType vs

/-- The document of an object without declared properties, given that of its values. -/
def tableDocument (value : List (String × Value)) : List (String × Value) :=
  [("type", .str "object"),
    ("additionalProperties", if value.isEmpty then .bool true else .map value)]

/-- The document of a list, given that of its items. -/
def arrayDocument (item : List (String × Value)) : List (String × Value) :=
  [("type", .str "array"), ("items", .map item)]

/-- The document of a row, given those of its items. -/
def rowDocument (items : List Value) : List (String × Value) :=
  [("type", .str "array")] ++ (if items.isEmpty then [] else [("prefixItems", .array items)])
    ++ [("minItems", .int items.length), ("maxItems", .int items.length)]

/-- What the document of a table says about its keys, given their document: something only if they
are a class or more than plain strings. -/
def namesDocument (key : List (String × Value)) : List (String × Value) :=
  if Table.has key "$ref" || (key.lookup "type" == some (.str "string") && 1 < key.length) then
    [("propertyNames", .map (Table.erase key "type"))]
  else []

/-- The document of a choice, given those of its members. Choices inside it are dissolved, repeated
documents count once, and a choice of one is that one. -/
def choiceDocument (members : List Value) : List (String × Value) :=
  match Value.distinct (members.flatMap fun d => match d with
    | .map [("anyOf", .array inner)] => inner
    | d => [d]) with
  | [.map only] => only
  | kept => [("anyOf", .array kept)]

mutual

/-- The entries of a target's document, inside the model of the given name. -/
def document (self : String) : Target → List (String × Value)
  | .text => [("type", .str "string")]
  | .integer => [("type", .str "integer")]
  | .number => [("type", .str "number")]
  | .truth => [("type", .str "boolean")]
  | .anything => []
  | .nothing => [("type", .str "null")]
  | .list item | .rowOf item => arrayDocument (document self item)
  | .set item | .frozenSet item =>
    arrayDocument (document self item) ++ [("uniqueItems", .bool true)]
  | .anyList => arrayDocument []
  | .row items => rowDocument (documents self items)
  | .table key value => tableDocument (document self value) ++ namesDocument (document self key)
  | .anyTable => tableDocument []
  | .union _ members => choiceDocument (documents self members)
  | .annotated _ inner => document self inner
  | .literal [value] => [("const", value.toValue)] ++ sharedType [value.toValue]
  | .literal values => valuesDocument (values.map Scalar.toValue)
  | .model info .. => refTo info.name
  | .enumeration info _ => refTo info.name
  | .plain _ => []
  | .selfOrNothing => choiceDocument [.map (refTo self), .map [("type", .str "null")]]
  | .listOfSelf => arrayDocument (refTo self)

/-- The documents of several targets. -/
def documents (self : String) : List Target → List Value
  | [] => []
  | t :: rest => .map (document self t) :: documents self rest

end

/-- The document of a model, without its definitions. -/
def modelDocument (info : ClassInfo) (fields : List (FieldInfo × Target)) : List (String × Value) :=
  let properties := Table.ofList (fields.map fun f =>
    (f.1.key, Value.map (document info.name f.2 ++ (match f.1.description with
      | some said => [("description", .str said)]
      | none => []))))
  let required := (fields.filter fun f => f.1.fallback.isNone).map fun f => Value.str f.1.key
  [("type", .str "object"), ("properties", .map properties)]
    ++ (if required.isEmpty then [] else [("required", .array required)])

/-- Whether a field refers to its own model. -/
def isSelf : Target → Bool
  | .selfOrNothing | .listOfSelf => true
  | _ => false

/-- Whether a field of the same key follows, so that a document shows that one. -/
def isReplaced (f : FieldInfo) (rest : List (FieldInfo × Target)) : Bool :=
  rest.any fun g => g.1.key == f.key

/-- Whether a document of fields refers to their own model. -/
def refersToSelf : List (FieldInfo × Target) → Bool
  | [] => false
  | (f, t) :: rest => (isSelf t && !isReplaced f rest) || refersToSelf rest

mutual

/-- The definitions of the classes inside a target, by name. -/
def definitions : Target → Table Value
  | .list item | .set item | .frozenSet item | .rowOf item => definitions item
  | .row items => definitionsOfAll items
  | .table key value =>
    Table.update (if (document "" key).any (·.1 == "$ref") then definitions key else [])
      (definitions value)
  | .union _ members => definitionsOfAll members
  | .annotated _ inner => definitions inner
  | .model info _ fields =>
    Table.put (definitionsOfFields fields) info.name (.map (modelDocument info fields))
  | .enumeration info members =>
    [(info.name, .map (valuesDocument ((ownMembers members).map (·.2))))]
  | .text | .integer | .number | .truth | .anything | .nothing | .literal _ | .plain _
  | .anyList | .anyTable | .selfOrNothing | .listOfSelf => []

/-- The definitions of the classes inside several targets. -/
def definitionsOfAll : List Target → Table Value
  | [] => []
  | t :: rest => Table.update (definitions t) (definitionsOfAll rest)

/-- The definitions of the classes inside fields. -/
def definitionsOfFields : List (FieldInfo × Target) → Table Value
  | [] => []
  | (f, t) :: rest =>
    Table.update (if isReplaced f rest then [] else definitions t) (definitionsOfFields rest)

end

/-- Names in the order of their code points. -/
def sortByName {α : Type} (t : Table α) : Table α :=
  t.mergeSort fun a b => decide (a.1 ≤ b.1)

/-- The document of a model with its definitions; other targets have none. A model that refers to
itself is a definition, and the document is a reference to it. -/
def schemaDocument? : Target → Option Value
  | .model info _ fields =>
    let own := modelDocument info fields
    let nested := definitionsOfFields fields
    if refersToSelf fields then
      some
        (.map (("$defs", .map (sortByName (Table.put nested info.name (.map own)))) :: refTo
        info.name))
    else if nested.isEmpty then some (.map own)
    else some (.map (("$defs", .map (sortByName nested)) :: own))
  | _ => none

/-- The name under which the schema of a class is registered. -/
def schemaName (t : Target) : String :=
  match t.info? with
  | some info => match info.schemaName with
    | some name => if name = "" then info.name else name
    | none => info.name
  | none => ""

/-- Whether a class may be extended while the program runs. -/
def isDynamic (t : Target) : Bool :=
  match t.info? with
  | some info => info.dynamic
  | none => false

/-- The texts of the members of an enumeration. -/
def memberTexts? : Target → Option (List String)
  | .enumeration _ members => some ((ownMembers members).map (·.2.display))
  | _ => none

/-- What a class among the targets answers when it is asked for its schema. -/
def source (t : Target) : ClassSource where
  name := t.schemaName
  dynamic := t.isDynamic
  declared := t.info?.bind (·.schema)
  document := .ok t.schemaDocument?
  members := t.memberTexts?.map .ok

/-- The schema of a class. -/
def describe (t : Target) : Except DescribeError Schema :=
  t.source.describe

/-- The descriptions of the fields of a class: those of the fields, then those of its declared
schema, then those that the class declares; later ones replace earlier ones. -/
def fieldDescriptions (t : Target) : Table Value :=
  let ofFields := match t with
    | .model _ _ fields => fields.foldl (fun d f => match f.1.description with
        | some said => if said = "" then d else Table.put d f.1.knownAs (.str said)
        | none => d) []
    | _ => []
  let ofSchema := match t.info?.bind (·.schema) with
    | some (.object _ _ _ descriptions) => descriptions
    | _ => []
  let declared := match t.info? with
    | some info => info.fieldDescriptions.mapEntries .str
    | none => []
  Table.update (Table.update ofFields ofSchema) declared

end Target

end ShapedReply
