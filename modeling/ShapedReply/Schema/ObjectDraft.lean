import ShapedReply.Schema.Basic

/-!
# Drafting object schemas

An object schema can be drafted property by property. Declaring a property again replaces its schema
and whether it is required; a description stays until another one is given.
-/

namespace ShapedReply

/-- An object schema in the making. -/
structure ObjectDraft where
  /-- The properties so far. -/
  properties : Table Schema := []
  /-- The required ones, in the order in which they became so. -/
  required : List String := []
  /-- The descriptions so far. -/
  descriptions : Table Value := []
  /-- What undeclared keys hold. -/
  additional : Option Schema := none

namespace ObjectDraft

/-- Declares a property. An empty description counts as none. -/
def property (d : ObjectDraft) (name : String) (s : Schema) (required : Bool)
    (description : Option String) : ObjectDraft :=
  { d with
    properties := Table.put d.properties name s
    required :=
      if required then
        if d.required.contains name then d.required else d.required ++ [name]
      else d.required.erase name
    descriptions := match description with
      | some text => if text = "" then d.descriptions else Table.put d.descriptions name (.str text)
      | none => d.descriptions }

/-- Says what undeclared keys hold. -/
def others (d : ObjectDraft) (s : Schema) : ObjectDraft :=
  { d with additional := some s }

/-- The schema as drafted so far. -/
def build (d : ObjectDraft) : Schema :=
  .object d.properties d.required d.additional d.descriptions

end ObjectDraft

end ShapedReply
