import ShapedReply.Catalog.Declare

/-!
# Handles that outlive a clearing

A handle names an enum or a class of one edition of a catalog. Clearing a catalog starts a new
edition; the handles of earlier ones keep working on what they named, apart from the new edition.
-/

namespace ShapedReply

/-- What a handle names. -/
inductive EntryKind where
  | enumEntry
  | classEntry
  deriving DecidableEq

/-- A lasting hold on an entry. -/
structure Handle where
  /-- The edition of the entry. -/
  edition : Nat
  /-- Whether it is an enum or a class. -/
  kind : EntryKind
  /-- The name of the entry. -/
  name : String
  deriving DecidableEq

/-- A catalog with its earlier editions, oldest first. -/
structure Archive where
  /-- The catalog that is in use. -/
  current : Catalog := {}
  /-- The earlier ones. -/
  past : List Catalog := []

namespace Archive

/-- The number of the current edition. -/
def edition (a : Archive) : Nat := a.past.length

/-- Starts an empty edition. -/
def clear (a : Archive) : Archive :=
  { current := {}, past := a.past ++ [a.current] }

/-- An edition; the current one if there is none of that number. -/
def editionAt (a : Archive) (edition : Nat) : Catalog :=
  a.past[edition]?.getD a.current

/-- Changes an edition. -/
def modifyAt (a : Archive) (edition : Nat) (f : Catalog → Catalog) : Archive :=
  if edition < a.past.length then { a with past := a.past.modify edition f }
  else { a with current := f a.current }

/-- A hold on an entry of the current edition. -/
def hold (a : Archive) (kind : EntryKind) (name : String) : Handle :=
  ⟨a.edition, kind, name⟩

/-- A held enum. -/
def enumAt (a : Archive) (h : Handle) : EnumEntry :=
  ((a.editionAt h.edition).enums.get? h.name).getD { name := h.name }

/-- A held class. -/
def classAt (a : Archive) (h : Handle) : ClassEntry :=
  ((a.editionAt h.edition).classes.get? h.name).getD { name := h.name }

/-- Appends a value to a held enum. -/
def addValue (a : Archive) (h : Handle) (v : EnumValue) : Archive :=
  a.modifyAt h.edition fun c => c.withValue h.name v

/-- Appends a property to a held class. -/
def addProperty (a : Archive) (h : Handle) (p : ClassProperty) : Archive :=
  a.modifyAt h.edition fun c => c.withProperty h.name p

end Archive

end ShapedReply
