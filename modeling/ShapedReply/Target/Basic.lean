import ShapedReply.Schema.Basic
import ShapedReply.Value.Display

/-!
# Targets

A target is what an answer is decoded into: a scalar, a container, a choice, or a class. Classes
come in three forms. A model has typed fields, an enumeration has members with values, and a plain
class has nothing. Every class may say things about itself: another name, a schema of its own,
descriptions of its fields, and whether it may be extended while the program runs.
-/

namespace ShapedReply

/-- What a class says about itself. -/
structure ClassInfo where
  /-- What tells the class from all others; several may have one name. -/
  identity : String
  /-- The name of the class. -/
  name : String
  /-- The name under which its schema is registered, if it has another one. -/
  schemaName : Option String := none
  /-- Whether the class may be extended while the program runs. -/
  dynamic : Bool := false
  /-- The schema that the class declares. -/
  schema : Option Schema := none
  /-- The descriptions of fields that the class declares. -/
  fieldDescriptions : Table String := []

/-- A field of a model, its type apart. -/
structure FieldInfo where
  /-- The name of the field. -/
  name : String
  /-- The key under which the field is given, if that is not its name. -/
  givenAs : Option String := none
  /-- What the field is for. -/
  description : Option String := none
  /-- The value of a field that is not given; a field without one has to be given. -/
  fallback : Option Value := none

/-- How a model takes its fields. -/
structure ModelOptions where
  /-- Whether a field may also be given by its name when it has another key. -/
  byName : Bool := false
  /-- Whether keys that belong to no field are refused. -/
  closed : Bool := false

/-- What a value is decoded into. -/
inductive Target where
  | text
  | integer
  | number
  | truth
  /-- Any value as it is. -/
  | anything
  /-- Null only. -/
  | nothing
  | list (item : Target)
  /-- A list that says nothing about its items. -/
  | anyList
  | set (item : Target)
  /-- A set that cannot change. -/
  | frozenSet (item : Target)
  /-- A fixed row of items, each with its own target. -/
  | row (items : List Target)
  /-- A row of any length. -/
  | rowOf (item : Target)
  | table (key value : Target)
  /-- A table that says nothing about its entries. -/
  | anyTable
  /-- One of several targets; `barred` when it was written with bars. -/
  | union (barred : Bool) (members : List Target)
  /-- A target with remarks. -/
  | annotated (remarks : List String) (inner : Target)
  /-- One of several scalars. -/
  | literal (values : List Scalar)
  | model (info : ClassInfo) (options : ModelOptions) (fields : List (FieldInfo × Target))
  | enumeration (info : ClassInfo) (members : List (String × Value))
  | plain (info : ClassInfo)
  /-- The model whose field this is, or null. -/
  | selfOrNothing
  /-- A list of the model whose field this is. -/
  | listOfSelf

/-- The key under which a field is given. -/
def FieldInfo.key (f : FieldInfo) : String :=
  f.givenAs.getD f.name

/-- The key by which a field is restyled and described: an empty one does not count. -/
def FieldInfo.knownAs (f : FieldInfo) : String :=
  if f.key = "" then f.name else f.key

namespace Target

/-- Whether a target is a model. -/
def isModel : Target → Bool
  | .model .. => true
  | _ => false

/-- Whether a target is null only. -/
def isNothing : Target → Bool
  | .nothing => true
  | _ => false

/-- The type of a field inside its model: references to the model are put in place. -/
def inside (model : Target) : Target → Target
  | .selfOrNothing => .union true [model, .nothing]
  | .listOfSelf => .list model
  | t => t

/-- What a class says about itself; other targets say nothing. -/
def info? : Target → Option ClassInfo
  | .model info .. => some info
  | .enumeration info _ => some info
  | .plain info => some info
  | _ => none

/-- The members of an enumeration that have a value of their own. A member with the value of an
earlier one is only another name for it. -/
def ownMembers (members : List (String × Value)) : List (String × Value) :=
  members.foldl (fun kept m => if kept.any fun k => k.2.alike m.2 then kept else kept ++ [m]) []

/-- Whether a target takes any value as it is, remarks apart. -/
def isAnything : Target → Bool
  | .anything => true
  | .annotated _ inner => isAnything inner
  | _ => false

/-! ## Comparing targets -/

/-- Whether two scalars are of one kind and alike. -/
def sameScalar (a b : Scalar) : Bool :=
  a.toValue.kind == b.toValue.kind && a.toValue.alike b.toValue

mutual

/-- Whether two targets are the same. Classes are compared by identity; the order of choices and of
literal values does not count. -/
def same : Target → Target → Bool
  | .text, .text | .integer, .integer | .number, .number | .truth, .truth => true
  | .anything, .anything | .nothing, .nothing | .anyList, .anyList | .anyTable, .anyTable => true
  | .selfOrNothing, .selfOrNothing | .listOfSelf, .listOfSelf => true
  | .list a, .list b | .set a, .set b | .frozenSet a, .frozenSet b | .rowOf a, .rowOf b => same a b
  | .row as, .row bs => sameRow as bs
  | .table k a, .table l b => same k l && same a b
  | .union _ as, .union _ bs => as.length == bs.length && sameAmong as bs
  | .annotated remarks a, .annotated remarks' b => remarks == remarks' && same a b
  | .literal xs, .literal ys => xs.length == ys.length && xs.all fun x => ys.any (sameScalar x)
  | .model a .., .model b .. => a.identity == b.identity
  | .enumeration a _, .enumeration b _ => a.identity == b.identity
  | .plain a, .plain b => a.identity == b.identity
  | _, _ => false

/-- Whether two rows are the same target by target. -/
def sameRow : List Target → List Target → Bool
  | [], [] => true
  | a :: as, b :: bs => same a b && sameRow as bs
  | _, _ => false

/-- Whether each of some targets is the same as one of others. -/
def sameAmong : List Target → List Target → Bool
  | [], _ => true
  | a :: as, bs => (bs.any fun b => same a b) && sameAmong as bs

end

/-- Targets without those that are the same as an earlier one. -/
def distinct (targets : List Target) : List Target :=
  targets.foldl (fun kept t => if kept.any fun k => same k t then kept else kept ++ [t]) []

/-! ## Building targets -/

/-- Whether a target has no form with bars, so that a choice with it is written in words. -/
def isWordy : Target → Bool
  | .annotated .. | .literal _ => true
  | .union barred _ => !barred
  | _ => false

/-- A choice of targets. Choices inside it are dissolved, repeated members count once, a choice of
one is that one, and bars give way to words when a member has no form with bars. -/
def choice (barred : Bool) (members : List Target) : Target :=
  match distinct (members.flatMap fun t => match t with
    | .union _ inner => inner
    | t => [t]) with
  | [t] => t
  | all => .union (barred && !members.any isWordy) all

/-- A target with a remark behind those that it has. -/
def remarked (remark : String) : Target → Target
  | .annotated remarks inner => .annotated (remarks ++ [remark]) inner
  | t => .annotated [remark] t

/-- One of several scalars; repeated ones count once. -/
def oneOf (values : List Scalar) : Target :=
  .literal (values.foldl
    (fun kept s => if kept.any fun k => sameScalar k s then kept else kept ++ [s]) [])

/-! ## Names -/

/-- A text in quotes. -/
def quoted (s : String) : String :=
  String.ofList (Value.str s).quoted

mutual

/-- A target as it is written in a choice with bars. Classes are written with their module. -/
def written : Target → String
  | .text => "str"
  | .integer => "int"
  | .number => "float"
  | .truth => "bool"
  | .anything => "typing.Any"
  | .nothing => "None"
  | .anyList => "list"
  | .list item => "list[" ++ written item ++ "]"
  | .set item => "set[" ++ written item ++ "]"
  | .frozenSet item => "frozenset[" ++ written item ++ "]"
  | .row [] => "tuple[()]"
  | .row items => "tuple[" ++ Text.joinWith ", " (writtenAll items) ++ "]"
  | .rowOf item => "tuple[" ++ written item ++ ", ...]"
  | .anyTable => "dict"
  | .table key value => "dict[" ++ written key ++ ", " ++ written value ++ "]"
  | .union true members => Text.joinWith " | " (writtenAll members)
  | .union false [t, .nothing] | .union false [.nothing, t] =>
    "typing.Optional[" ++ written t ++ "]"
  | .union false members => "typing.Union[" ++ Text.joinWith ", " (writtenWords members) ++ "]"
  | .annotated remarks .nothing =>
    "typing.Annotated[" ++ Text.joinWith ", " ("NoneType" :: remarks.map quoted) ++ "]"
  | .annotated remarks inner =>
    "typing.Annotated[" ++ Text.joinWith ", " (written inner :: remarks.map quoted) ++ "]"
  | .literal values =>
    "typing.Literal[" ++
      Text.joinWith ", " (values.map fun s => String.ofList s.toValue.quoted) ++ "]"
  | .model info .. => "models." ++ info.name
  | .enumeration info _ => "models." ++ info.name
  | .plain info => "models." ++ info.name
  | .selfOrNothing | .listOfSelf => ""

/-- Several targets as they are written. -/
def writtenAll : List Target → List String
  | [] => []
  | t :: rest => written t :: writtenAll rest

/-- The members of a choice in words; null has a longer name there. -/
def writtenWords : List Target → List String
  | [] => []
  | .nothing :: rest => "NoneType" :: writtenWords rest
  | t :: rest => written t :: writtenWords rest

end

/-- The name of a target in error reports. -/
def name : Target → String
  | .text => "str"
  | .integer => "int"
  | .number => "float"
  | .truth => "bool"
  | .anything => "Any"
  | .nothing => "NoneType"
  | .list _ | .anyList | .listOfSelf => "list"
  | .set _ => "set"
  | .frozenSet _ => "frozenset"
  | .row _ | .rowOf _ => "tuple"
  | .table .. | .anyTable => "dict"
  | .union barred members =>
    if barred then written (.union barred members)
    else if members.length = 2 && members.any isNothing then "Optional"
    else "Union"
  | .annotated .. => "Annotated"
  | .literal _ => "Literal"
  | .model info .. => info.name
  | .enumeration info _ => info.name
  | .plain info => info.name
  | .selfOrNothing => "Optional"

end Target

end ShapedReply
