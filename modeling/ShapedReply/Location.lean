import ShapedReply.Text.Identifier

/-!
# Locations in a value

A location is the list of keys and positions that lead to a part of a value. It is written behind a
base, with a point before keys that are identifiers and brackets around all else.
-/

namespace ShapedReply

/-- One step into a value. -/
inductive Step where
  /-- Into the entry under a key. -/
  | key (name : String)
  /-- Into the item at a position. -/
  | index (n : Int)
  deriving DecidableEq

/-- The steps that lead to a part, outermost first. -/
abbrev Location := List Step

/-- One step as text. -/
def Step.render : Step → String
  | .index n => "[" ++ toString n ++ "]"
  | .key name =>
    if Text.isIdentifier name.toList then "." ++ name else "[\"" ++ name ++ "\"]"

namespace Location

/-- A location behind a base. -/
def render (base : String) (location : Location) : String :=
  location.foldl (fun path step => path ++ step.render) base

/-- The base of locations in a whole answer. -/
def root : String := "$"

end Location

end ShapedReply
