import Mathlib.Data.List.Nodup
import ShapedReply.Prompt.Instruction
import ShapedReply.Proofs.Recursion
import ShapedReply.Proofs.Schema.Walk
import ShapedReply.Proofs.Table

/-!
# Layouts of expressions

In an expression a name is replaced by what it stands for, which may hold the name again. This file
writes the renderer as the recursion that it is: a call knows the names that are being expanded
around it, writes those as they are, and makes calls for the properties of any other (`rendering`).
Its answer is a `Layout`, the text with its nesting.

`Layout.Nests` says that on the way to any place of a layout no name is expanded twice, and that a
name stands bare only where it is being expanded, or where it is not known.
-/

namespace ShapedReply.Prompt

/-! ## Layouts -/

/-- A text with its nesting. -/
inductive Layout where
  /-- A text in which no object is named. -/
  | text (t : String)
  /-- Parts in a row, with a separator between them. -/
  | joined (separator : String) (parts : List Layout)
  /-- A name, replaced by what it stands for. -/
  | expanded (name : String) (body : Layout)
  /-- A name as it is. -/
  | bare (name : String)

namespace Layout

mutual

/-- The text of a layout. -/
def toText : Layout → String
  | .text t => t
  | .joined separator parts => Text.joinWith separator (toTexts parts)
  | .expanded _ body => body.toText
  | .bare name => name

/-- The texts of layouts. -/
def toTexts : List Layout → List String
  | [] => []
  | l :: rest => l.toText :: toTexts rest

end

/-- The parts of a layout are written one by one. -/
theorem toTexts_eq_map (ls : List Layout) : toTexts ls = ls.map toText := by
  induction ls with
  | nil => rfl
  | cons l ls ih => rw [toTexts, ih, List.map_cons]

/-- Joined parts are written with the separator between them. -/
theorem toText_joined (separator : String) (parts : List Layout) :
    (Layout.joined separator parts).toText = Text.joinWith separator (parts.map toText) := by
  rw [toText, toTexts_eq_map]

/-- There is a way from a layout to a place inside it, on which the names are expanded, outermost
first. -/
inductive Reaches : Layout → List String → Layout → Prop
  | here (l : Layout) : Reaches l [] l
  | part {separator : String} {parts : List Layout} {x l : Layout} {names : List String}
      (mem : x ∈ parts) (h : Reaches x names l) : Reaches (.joined separator parts) names l
  | within {name : String} {body l : Layout} {names : List String} (h : Reaches body names l) :
      Reaches (.expanded name body) (name :: names) l

/-- On no way through a layout a name is expanded twice, or expanded though it is so around the
layout already. A name stands bare only if it is being expanded or is not known. -/
def Nests (resolve : Resolver) (around : List String) (l : Layout) : Prop :=
  ∀ names x, l.Reaches names x → names.Nodup ∧ (∀ name ∈ names, name ∉ around) ∧
    ∀ name, x = .bare name → name ∈ names ∨ name ∈ around ∨ resolve name = none

variable {resolve : Resolver} {around : List String}

/-- A plain text nests. -/
theorem nests_text (t : String) : (Layout.text t).Nests resolve around := by
  intro names x h
  cases h with
  | here =>
    refine ⟨List.nodup_nil, by simp, ?_⟩
    intro name hbare
    cases hbare

/-- A bare name nests if it is being expanded or not known. -/
theorem nests_bare {name : String} (h : name ∈ around ∨ resolve name = none) :
    (Layout.bare name).Nests resolve around := by
  intro names x hreaches
  cases hreaches with
  | here =>
    refine ⟨List.nodup_nil, by simp, ?_⟩
    intro other hbare
    cases hbare
    exact .inr h

/-- Joined parts nest if each of them does. -/
theorem nests_joined {separator : String} {parts : List Layout}
    (h : ∀ x ∈ parts, x.Nests resolve around) :
    (Layout.joined separator parts).Nests resolve around := by
  intro names x hreaches
  cases hreaches with
  | here =>
    refine ⟨List.nodup_nil, by simp, ?_⟩
    intro name hbare
    cases hbare
  | part hmem hreaches => exact h _ hmem names x hreaches

/-- A name that is not being expanded may be. -/
theorem nests_expanded {name : String} {body : Layout} (hname : name ∉ around)
    (h : body.Nests resolve (name :: around)) :
    (Layout.expanded name body).Nests resolve around := by
  intro names x hreaches
  cases hreaches with
  | here =>
    refine ⟨List.nodup_nil, by simp, ?_⟩
    intro other hbare
    cases hbare
  | @within _ _ _ names hreaches =>
    obtain ⟨hnodup, hfree, hbare⟩ := h names x hreaches
    have hnew : name ∉ names := fun hmem => hfree name hmem List.mem_cons_self
    refine ⟨List.nodup_cons.mpr ⟨hnew, hnodup⟩, ?_, ?_⟩
    · refine List.forall_mem_cons.mpr ⟨hname, fun other hother => ?_⟩
      exact fun hmem => hfree other hother (List.mem_cons_of_mem name hmem)
    · intro other hx
      rcases hbare other hx with hmem | hmem | hnone
      · exact .inl (List.mem_cons_of_mem name hmem)
      · rcases List.mem_cons.mp hmem with rfl | hmem
        · exact .inl List.mem_cons_self
        · exact .inr (.inl hmem)
      · exact .inr (.inr hnone)

end Layout

/-! ## The renderer as a recursion -/

/-- A part of a prompt, to be written. -/
inductive Passage where
  /-- An expression at a level, inside the names that are being expanded. -/
  | expression (expanding : List String) (level : Int) (further : Table Value) (s : Schema)
  /-- The instruction for an answer. -/
  | instruction (further : Table Value) (s : Schema)
  /-- The instruction for an answer, behind definitions. -/
  | document (definitions : Table Schema) (root : Schema)

namespace Passage

/-- The calls that an expression makes. -/
def expressionCalls (resolve : Resolver) (expanding : List String) (level : Int) :
    Schema → List Passage
  | .array s | .optional s => [.expression expanding level [] s]
  | .map key value => [.expression expanding level [] key, .expression expanding level [] value]
  | .object properties _ _ _ => properties.map fun p => .expression expanding (level + 1) [] p.2
  | .anyOf members => members.map fun s => .expression expanding level [] s
  | .ref name =>
    if name ∈ expanding then [] else match resolve name with
      | some (.object properties _ _) =>
        properties.map fun p => .expression (name :: expanding) (level + 1) [] p.2
      | _ => []
  | _ => []

/-- The calls that an instruction makes. -/
def instructionCalls (resolve : Resolver) (further : Table Value) : Schema → List Passage
  | .string | .int | .float | .bool | .null | .enum .. => []
  | .array s => [.expression [] 0 [] s]
  | .anyOf members => members.map fun s => .expression [] 0 [] s
  | .ref name => match resolve name with
    | some (.enum ..) => []
    | some (.object properties required descriptions) =>
      [.expression [name] 0 further (.object properties required none descriptions)]
    | none => [.expression [] 0 further (.ref name)]
  | s => [.expression [] 0 further s]

/-- The calls that a passage makes. -/
def calls (resolve : Resolver) : Passage → List Passage
  | .expression expanding level _ s => expressionCalls resolve expanding level s
  | .instruction further s => instructionCalls resolve further s
  | .document definitions root =>
    (Target.sortByName definitions).map (fun e => .expression definitions.names 1 [] e.2)
      ++ [.expression definitions.names 0 [] root]

/-- The layout of the item of a list: in parentheses if it is a choice. -/
def itemLayout (s : Schema) (l : Layout) : Layout :=
  match s with
  | .anyOf _ | .optional _ => .joined "" [.text "(", l, .text ")"]
  | _ => l

/-- The layouts of the lines of one property. -/
def propertyLayouts (level : Int) (required : List String) (descriptions : Table Value)
    (name : String) (l : Layout) : List Layout :=
  (commentLines level (descriptions.get? name)).map .text
    ++
      [.joined "" [.text (padding level ++ "  " ++ name ++
      (if required.contains name then "" else "?") ++ ": "), l, .text ","]]

/-- The layout of an object, given those of its properties. -/
def objectLayout (level : Int) (required : List String) (descriptions : Table Value)
    (answer : Schema → Layout) (properties : List (String × Schema)) : Layout :=
  let lines := properties.flatMap fun p =>
    propertyLayouts level required descriptions p.1 (answer p.2)
  if lines.isEmpty then .text "\x7b\x7d"
  else .joined "\n" ([.text "\x7b"] ++ lines ++ [.text (padding level ++ "\x7d")])

/-- The layout of an expression, given those of the calls that it makes. -/
def expressionLayout (resolve : Resolver) (answer : Passage → Layout) (expanding : List String)
    (level : Int) (further : Table Value) : Schema → Layout
  | .string => .text "string"
  | .int => .text "int"
  | .float => .text "float"
  | .bool => .text "bool"
  | .null => .text "null"
  | .array s => .joined "" [itemLayout s (answer (.expression expanding level [] s)), .text "[]"]
  | .map key value =>
    .joined "" [.text "map<", answer (.expression expanding level [] key), .text ", ",
      answer (.expression expanding level [] value), .text ">"]
  | .object properties required _ descriptions =>
    objectLayout level required (Table.update descriptions further)
      (fun s => answer (.expression expanding (level + 1) [] s)) properties
  | .enum values _ => .text (alternatives values)
  | .ref name =>
    if name ∈ expanding then .bare name else match resolve name with
      | some (.enum values _) => .text (alternatives values)
      | some (.object properties required descriptions) =>
        .expanded name (objectLayout level required descriptions
          (fun s => answer (.expression (name :: expanding) (level + 1) [] s)) properties)
      | none => .bare name
  | .external name => .text name
  | .anyOf members => .joined " | " (members.map fun s => answer (.expression expanding level [] s))
  | .optional s => .joined "" [answer (.expression expanding level [] s), .text " | null"]
  | .literal value => .text value.toValue.toAscii

/-- A layout with the lead of an expression. -/
def ledLayout (l : Layout) : Layout := .joined "\n" [.text lead, l]

/-- The layout of an instruction, given those of the calls that it makes. -/
def instructionLayout (resolve : Resolver) (answer : Passage → Layout) (further : Table Value) :
    Schema → Layout
  | .string => .text ""
  | .int => .text "Answer as an int"
  | .float => .text "Answer as a float"
  | .bool => .text "Answer as a bool"
  | .null => .text "Answer with null"
  | .enum values _ => .text (categories values)
  | .array s =>
    .joined "\n" [.text listLead,
      .joined "" [itemLayout s (answer (.expression [] 0 [] s)), .text "[]"]]
  | .anyOf members =>
    .joined "" [.text "Answer with one of: ",
      .joined " | " (members.map fun s => answer (.expression [] 0 [] s))]
  | .ref name => match resolve name with
    | some (.enum values _) => .text (categories values)
    | some (.object properties required descriptions) =>
      ledLayout (.expanded name
        (answer (.expression [name] 0 further (.object properties required none descriptions))))
    | none => ledLayout (answer (.expression [] 0 further (.ref name)))
  | s => ledLayout (answer (.expression [] 0 further s))

/-- The layouts of the lines of definitions, given those of the calls that are made for them. -/
def definitionLayouts (c : Catalog) (answer : Passage → Layout) (definitions : Table Schema) :
    List Layout :=
  (Target.sortByName definitions).map (fun e => .joined "" [.text ("  " ++ e.1 ++ " = "),
      answer (.expression definitions.names 1 [] e.2)])
    ++ (c.enumValues.filter fun e => !definitions.has e.1).map fun e =>
      .text ("  " ++ e.1 ++ " = " ++ alternatives e.2)

/-- The layout of an instruction behind definitions, given those of the calls that it makes. -/
def documentLayout (c : Catalog) (answer : Passage → Layout) (definitions : Table Schema)
    (root : Schema) : Layout :=
  let lines := definitionLayouts c answer definitions
  let head := if lines.isEmpty then [] else [.text "Type definitions:"] ++ lines ++ [.text ""]
  .joined "\n" (head ++ [.text lead, answer (.expression definitions.names 0 [] root)])

/-- The layout of a passage, given those of the calls that it makes. -/
def layout (c : Catalog) (answer : Passage → Layout) : Passage → Layout
  | .expression expanding level further s =>
    expressionLayout c.resolve answer expanding level further s
  | .instruction further s => instructionLayout c.resolve answer further s
  | .document definitions root => documentLayout c answer definitions root

variable {f g : Passage → Layout}

/-- The layout of an object depends on those of its properties. -/
theorem objectLayout_congr {level : Int} {required : List String} {descriptions : Table Value}
    {k l : Schema → Layout} {properties : List (String × Schema)}
    (h : ∀ p ∈ properties, k p.2 = l p.2) :
    objectLayout level required descriptions k properties =
      objectLayout level required descriptions l properties := by
  have hlines :
      (properties.flatMap fun p => propertyLayouts level required descriptions p.1 (k p.2)) =
      properties.flatMap fun p => propertyLayouts level required descriptions p.1 (l p.2) := by
    rw [List.flatMap_def, List.flatMap_def]
    refine congrArg List.flatten (List.map_congr_left fun p hp => ?_)
    rw [h p hp]
  rw [objectLayout, objectLayout, hlines]

/-- The layout of an expression depends on the passages that it calls for. -/
theorem expressionLayout_congr {resolve : Resolver} {expanding : List String} {level : Int}
    {further : Table Value} {s : Schema}
    (h : ∀ y ∈ expressionCalls resolve expanding level s, f y = g y) :
    expressionLayout resolve f expanding level further s =
      expressionLayout resolve g expanding level further s := by
  cases s with
  | array s | optional s => rw [expressionLayout, expressionLayout, h _ List.mem_cons_self]
  | map key value =>
    rw [expressionLayout, expressionLayout, h _ List.mem_cons_self,
      h _ (List.mem_cons_of_mem _ List.mem_cons_self)]
  | object properties required additional descriptions =>
    rw [expressionLayout, expressionLayout]
    refine objectLayout_congr fun p hp => ?_
    exact h _ (List.mem_map.mpr ⟨p, hp, rfl⟩)
  | anyOf members =>
    rw [expressionLayout, expressionLayout]
    refine congrArg (Layout.joined " | ") (List.map_congr_left fun s hs => ?_)
    exact h _ (List.mem_map.mpr ⟨s, hs, rfl⟩)
  | ref name =>
    rw [expressionLayout, expressionLayout]
    rw [expressionCalls] at h
    split
    · rfl
    · next hfree =>
      rw [if_neg hfree] at h
      rcases hd : resolve name with _ | ⟨values, aliases⟩ | ⟨properties, required, descriptions⟩
      · rfl
      · rfl
      · rw [hd] at h
        exact congrArg (Layout.expanded name)
          (objectLayout_congr fun p hp => h _ (List.mem_map.mpr ⟨p, hp, rfl⟩))
  | string | int | float | bool | null | enum _ _ | external _ | literal _ => rfl

/-- The layout of an instruction depends on the passages that it calls for. -/
theorem instructionLayout_congr {resolve : Resolver} {further : Table Value} {s : Schema}
    (h : ∀ y ∈ instructionCalls resolve further s, f y = g y) :
    instructionLayout resolve f further s = instructionLayout resolve g further s := by
  cases s with
  | string | int | float | bool | null | enum _ _ => rfl
  | array s => rw [instructionLayout, instructionLayout, h _ List.mem_cons_self]
  | anyOf members =>
    have hmembers : (members.map fun s => f (.expression [] 0 [] s)) =
        members.map fun s => g (.expression [] 0 [] s) :=
      List.map_congr_left fun s hs => h _ (List.mem_map.mpr ⟨s, hs, rfl⟩)
    rw [instructionLayout, instructionLayout, hmembers]
  | ref name =>
    rw [instructionLayout, instructionLayout]
    rw [instructionCalls] at h
    rcases hd : resolve name with _ | ⟨values, aliases⟩ | ⟨properties, required, descriptions⟩
    · rw [hd] at h
      exact congrArg ledLayout (h _ List.mem_cons_self)
    · rfl
    · rw [hd] at h
      exact congrArg (fun l => ledLayout (.expanded name l)) (h _ List.mem_cons_self)
  | map _ _ | object _ _ _ _ | external _ | optional _ | literal _ =>
    exact congrArg ledLayout (h _ List.mem_cons_self)

/-- The layout of a passage depends on the passages that it calls for. -/
theorem layout_congr {c : Catalog} {x : Passage} (h : ∀ y ∈ calls c.resolve x, f y = g y) :
    layout c f x = layout c g x := by
  cases x with
  | expression expanding level further s => exact expressionLayout_congr h
  | instruction further s => exact instructionLayout_congr h
  | document definitions root =>
    have hroot : f (.expression definitions.names 0 [] root) =
        g (.expression definitions.names 0 [] root) :=
      h _ (List.mem_append_right _ List.mem_cons_self)
    have hlines : definitionLayouts c f definitions = definitionLayouts c g definitions := by
      refine congrArg (· ++ _) (List.map_congr_left fun e he => ?_)
      rw [h _ (List.mem_append_left _ (List.mem_map.mpr ⟨e, he, rfl⟩))]
    rw [layout, layout, documentLayout, documentLayout, hroot, hlines]

/-! ## Parts of layouts -/

section parts

open Layout

variable {resolve : Resolver} {around : List String} {level : Int} {required : List String}
  {descriptions : Table Value} {properties : List (String × Schema)} {answer : Schema → Layout}

/-- Parentheses around an item do not change whether it nests. -/
theorem nests_itemLayout {l : Layout} (s : Schema) (h : l.Nests resolve around) :
    (itemLayout s l).Nests resolve around := by
  cases s with
  | anyOf _ | optional _ => exact nests_joined (by simp [nests_text, h])
  | _ => exact h

/-- An item is written with the parentheses that it needs. -/
theorem toText_itemLayout (s : Schema) (l : Layout) :
    (itemLayout s l).toText = asItem s l.toText := by
  cases s with
  | anyOf _ | optional _ =>
    simp [itemLayout, asItem, toText, toTexts, Text.joinWith, String.append_assoc]
  | _ => rfl

/-- The words before an answer do not change whether it nests. -/
theorem nests_ledLayout {l : Layout} (h : l.Nests resolve around) :
    (ledLayout l).Nests resolve around :=
  nests_joined (by simp [nests_text, h])

/-- An answer is written with the words before it. -/
theorem toText_ledLayout (l : Layout) : (ledLayout l).toText = led l.toText := by
  rw [ledLayout, toText_joined]
  rfl

/-- An object nests if its properties do. -/
theorem nests_objectLayout (h : ∀ p ∈ properties, (answer p.2).Nests resolve around) :
    (objectLayout level required descriptions answer properties).Nests resolve around := by
  have hlines : ∀ l ∈ properties.flatMap (fun p =>
      propertyLayouts level required descriptions p.1 (answer p.2)), l.Nests resolve around := by
    intro l hl
    obtain ⟨p, hp, hl⟩ := List.mem_flatMap.mp hl
    rcases List.mem_append.mp hl with hl | hl
    · obtain ⟨t, -, rfl⟩ := List.mem_map.mp hl
      exact nests_text t
    · obtain rfl := List.mem_singleton.mp hl
      apply nests_joined
      simp [nests_text, h p hp]
  rw [objectLayout]
  split
  · exact nests_text _
  · apply nests_joined
    exact List.forall_mem_append.mpr
      ⟨List.forall_mem_append.mpr ⟨by simp [nests_text], hlines⟩, by simp [nests_text]⟩

/-- A property is written with its comment lines. -/
theorem toText_propertyLayouts (name : String) (l : Layout) :
    (propertyLayouts level required descriptions name l).map toText =
      propertyLines level required descriptions name l.toText := by
  have hcomments : ((commentLines level (descriptions.get? name)).map Layout.text).map toText =
      commentLines level (descriptions.get? name) := by
    rw [List.map_map]
    exact List.map_id'' (fun t => rfl) _
  rw [propertyLayouts, propertyLines, List.map_append, hcomments, List.map_singleton, toText_joined]
  simp [toText, Text.joinWith, String.append_assoc]

/-- An object is written with its properties in braces. -/
theorem toText_objectLayout {named : Int → String → String}
    (h : ∀ p ∈ properties, (answer p.2).toText = expressionWith named (level + 1) p.2) :
    (objectLayout level required descriptions answer properties).toText =
      braces level (linesWith named level required descriptions properties) := by
  have hlines : (properties.flatMap fun p =>
      propertyLayouts level required descriptions p.1 (answer p.2)).map toText =
        linesWith named level required descriptions properties := by
    induction properties with
    | nil => rfl
    | cons p properties ih =>
      rw [List.forall_mem_cons] at h
      rw [List.flatMap_cons, List.map_append, ih h.2, toText_propertyLayouts, h.1]
      rfl
  have hempty : (properties.flatMap fun p =>
      propertyLayouts level required descriptions p.1 (answer p.2)).isEmpty =
        (linesWith named level required descriptions properties).isEmpty := by
    rw [← hlines, List.isEmpty_map]
  rw [objectLayout, braces, hempty]
  split
  · rfl
  · rw [toText_joined, List.map_append, List.map_append, hlines]
    rfl

end parts

end Passage

/-- Rendering as a recursion. -/
def rendering (c : Catalog) : Recursion Passage Layout where
  calls := Passage.calls c.resolve
  body := Passage.layout c
  fallback := .text ""
  body_congr := Passage.layout_congr

end ShapedReply.Prompt
