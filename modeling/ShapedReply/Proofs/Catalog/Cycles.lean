import ShapedReply.Proofs.Prompt.Layout
import ShapedReply.Proofs.Schema.Descent

/-!
# Cycles among definitions

Definitions may name each other, and themselves. What follows names still ends:

* `rendering_ends`: an expression ends since what decreases is the number of names that are not
  being expanded, and where that stays, the schema;
* `exists_isWritten`: what rendering ends with is the expression or the instruction, and **on no way
  through it a name is expanded twice**;
* fitting and checking follow a name at most once before they enter the value (`Fit.fitting_ends`,
  `Check.checking_ends`).
-/

namespace ShapedReply.Prompt

/-! ## Rendering ends -/

/-- What is known about the names that are not being expanded. -/
def unexpanded (known : Table Definition) (expanding : List String) : Table Definition :=
  known.filter fun e => !(expanding.contains e.1)

/-- Where nothing is being expanded, all is known. -/
theorem unexpanded_nil (known : Table Definition) : unexpanded known [] = known := by
  simp [unexpanded]

/-- A name that is being expanded is no longer known inside. -/
theorem unexpanded_cons (known : Table Definition) (name : String) (expanding : List String) :
    unexpanded known (name :: expanding) = (unexpanded known expanding).erase name := by
  rw [unexpanded, unexpanded, Table.erase, List.filter_filter]
  refine List.filter_congr fun e _ => ?_
  rw [List.contains_cons, Bool.not_or]
  rfl

/-- What is known about a name, unless it is being expanded. -/
theorem get?_unexpanded (known : Table Definition) (expanding : List String) (name : String) :
    (unexpanded known expanding).get? name =
      if name ∈ expanding then none else known.get? name := by
  induction expanding with
  | nil => simp [unexpanded_nil]
  | cons other expanding ih =>
    rw [unexpanded_cons]
    by_cases hname : name = other
    · rw [hname, Table.get?_erase_self, if_pos List.mem_cons_self]
    · rw [Table.get?_erase_of_ne _ hname, ih]
      simp [hname]

/-- Names that a document defines count as being expanded. -/
theorem unexpanded_names (known : Table Definition) (definitions : Table Schema) :
    unexpanded known definitions.names = known.filter fun e => !definitions.has e.1 := by
  refine List.filter_congr fun e _ => ?_
  refine congrArg not (Bool.eq_iff_iff.mpr ?_)
  rw [List.contains_iff_mem, Table.has_iff]

variable {c : Catalog}

/-- An expression ends, whatever cycles the definitions form: a name that is expanded is no longer
among those that may be, and otherwise the schema gets smaller. -/
theorem expression_ends (c : Catalog) (expanding : List String) :
    ∀ (s : Schema) (level : Int) (further : Table Value),
      ∃ l, (rendering c).Ends (.expression expanding level further s) l := by
  induction hcount : (unexpanded c.definitions expanding).length using Nat.strongRecOn
    generalizing expanding with
  | ind count hnames =>
  intro s
  induction s using Schema.ind with
  | step s ih =>
  intro level further
  apply Recursion.exists_ends
  intro y hy
  change y ∈ Passage.expressionCalls c.resolve expanding level s at hy
  cases s with
  | array s | optional s =>
    obtain rfl := List.mem_singleton.mp hy
    exact ih s (by simp [Schema.parts]) level []
  | map key value =>
    rcases List.mem_cons.mp hy with rfl | hy
    · exact ih key (by simp [Schema.parts]) level []
    · obtain rfl := List.mem_singleton.mp hy
      exact ih value (by simp [Schema.parts]) level []
  | object properties required additional descriptions =>
    obtain ⟨p, hp, rfl⟩ := List.mem_map.mp hy
    have hpart : p.2 ∈ (Schema.object properties required additional descriptions).parts :=
      List.mem_append_left _ (List.mem_map_of_mem hp)
    exact ih p.2 hpart (level + 1) []
  | anyOf members =>
    obtain ⟨x, hx, rfl⟩ := List.mem_map.mp hy
    exact ih x hx level []
  | ref name =>
    rw [Passage.expressionCalls] at hy
    split at hy
    · cases hy
    · next hfree =>
      split at hy
      · next properties required descriptions hd =>
        obtain ⟨p, hp, rfl⟩ := List.mem_map.mp hy
        have hfewer : (unexpanded c.definitions (name :: expanding)).length < count := by
          rw [← hcount, unexpanded_cons]
          refine Table.length_erase_lt (a := .object properties required descriptions) ?_
          rw [get?_unexpanded, if_neg hfree]
          exact hd
        exact hnames _ hfewer (name :: expanding) rfl p.2 (level + 1) []
      · cases hy
  | string | int | float | bool | null | enum _ _ | external _ | literal _ => cases hy

/-- An instruction calls for expressions only. -/
theorem exists_eq_expression {resolve : Resolver} {further : Table Value} {s : Schema} {y : Passage}
    (hy : y ∈ Passage.instructionCalls resolve further s) :
    ∃ expanding level further s, y = .expression expanding level further s := by
  cases s with
  | string | int | float | bool | null | enum _ _ => cases hy
  | anyOf members =>
    obtain ⟨s, -, rfl⟩ := List.mem_map.mp hy
    exact ⟨_, _, _, _, rfl⟩
  | ref name =>
    rw [Passage.instructionCalls] at hy
    split at hy
    · cases hy
    · exact ⟨_, _, _, _, List.mem_singleton.mp hy⟩
    · exact ⟨_, _, _, _, List.mem_singleton.mp hy⟩
  | array _ | map _ _ | object _ _ _ _ | external _ | optional _ | literal _ =>
    exact ⟨_, _, _, _, List.mem_singleton.mp hy⟩

/-- **Rendering ends**, whatever is to be written. -/
theorem rendering_ends (c : Catalog) (x : Passage) : ∃ l, (rendering c).Ends x l := by
  cases x with
  | expression expanding level further s => exact expression_ends c expanding s level further
  | instruction further s =>
    apply Recursion.exists_ends
    intro y hy
    obtain ⟨expanding, level, further, s, rfl⟩ := exists_eq_expression hy
    exact expression_ends c expanding s level further
  | document definitions root =>
    apply Recursion.exists_ends
    intro y hy
    rcases List.mem_append.mp hy with hy | hy
    · obtain ⟨e, -, rfl⟩ := List.mem_map.mp hy
      exact expression_ends c _ e.2 1 []
    · obtain rfl := List.mem_singleton.mp hy
      exact expression_ends c _ root 0 []

/-! ## What is written -/

/-- An expression with further descriptions of its own properties, given how names are written. -/
def expressionBy (named : Int → String → String) (level : Int) (further : Table Value) :
    Schema → String
  | .object properties required _ descriptions =>
    braces level (linesWith named level required (Table.update descriptions further) properties)
  | s => expressionWith named level s

/-- Without further descriptions the expression of a schema is the plain one. -/
theorem expressionBy_nil (named : Int → String → String) (level : Int) (s : Schema) :
    expressionBy named level [] s = expressionWith named level s := by
  cases s <;> rfl

/-- Expressions with further descriptions, as one function of the schema. -/
theorem expression_eq_expressionBy (known : Table Definition) (s : Schema) (further : Table Value)
    (level : Int) :
    expression known s further level = expressionBy (named known.length known) level further s := by
  cases s <;> rfl

/-- A name that is not known is written as it is. -/
theorem named_of_unknown {known : Table Definition} {name : String} (h : known.get? name = none)
    (n : Nat) (level : Int) : named n known level name = name := by
  cases n with
  | zero => rfl
  | succ n => rw [named, h]

/-- A depth that allows for all known names is left with one that allows for those without a
name. -/
theorem exists_depth_erase {known : Table Definition} {name : String} {d : Definition} {n : Nat}
    (h : known.get? name = some d) (hn : known.length ≤ n) :
    ∃ m, n = m + 1 ∧ (known.erase name).length ≤ m := by
  have hfewer := Table.length_erase_lt h
  cases n with
  | zero => omega
  | succ m => exact ⟨m, rfl, by omega⟩

open Layout

/-- A layout is the one of a passage: it nests inside the names around it, and its text is the one
that is written. -/
def Passage.IsWritten (c : Catalog) : Passage → Layout → Prop
  | .expression expanding level further s, l =>
    l.Nests c.resolve expanding ∧ ∀ n, (unexpanded c.definitions expanding).length ≤ n →
      l.toText = expressionBy (named n (unexpanded c.definitions expanding)) level further s
  | .instruction further s, l =>
    l.Nests c.resolve [] ∧ l.toText = Prompt.instruction c.definitions s further
  | .document definitions root, l =>
    l.Nests c.resolve definitions.names ∧ l.toText = instructionWithDefinitions c root definitions

namespace Passage

variable {expanding : List String} {level : Int} {further : Table Value} {s : Schema} {l : Layout}
  {f : Passage → Layout}

/-- What is written for a schema is its expression, with names expanded as deep as there are any. -/
theorem IsWritten.toText_eq (h : IsWritten c (.expression expanding level [] s) l) {n : Nat}
    (hn : (unexpanded c.definitions expanding).length ≤ n) :
    l.toText = expressionWith (named n (unexpanded c.definitions expanding)) level s := by
  rw [h.2 n hn, expressionBy_nil]

/-- At the outermost, the text is the expression with all that is known. -/
theorem IsWritten.toText_eq_expressionAt (h : IsWritten c (.expression [] level [] s) l) :
    l.toText = expressionAt c.definitions level s := by
  have htext := h.toText_eq (Nat.le_refl _)
  rw [unexpanded_nil] at htext
  exact htext

/-- What is written for a schema at the top is its expression, with the further descriptions. -/
theorem IsWritten.toText_eq_expression (h : IsWritten c (.expression [] level further s) l) :
    l.toText = Prompt.expression c.definitions s further level := by
  have htext := h.2 _ (Nat.le_refl _)
  rw [unexpanded_nil] at htext
  rw [htext, expression_eq_expressionBy]

/-- A name that is not being expanded is replaced by what it stands for, inside which it is. -/
theorem isWritten_ref {name : String}
    (h : ∀ y ∈ expressionCalls c.resolve expanding level (.ref name), IsWritten c y (f y)) :
    IsWritten c (.expression expanding level further (.ref name))
      (expressionLayout c.resolve f expanding level further (.ref name)) := by
  have hunknown (hget : (unexpanded c.definitions expanding).get? name = none) (n : Nat) :
      name = named n (unexpanded c.definitions expanding) level name :=
    (named_of_unknown hget n level).symm
  rw [expressionCalls] at h
  rw [expressionLayout]
  split
  · next hmem =>
    refine ⟨nests_bare (.inl hmem), fun n _ => hunknown ?_ n⟩
    rw [get?_unexpanded, if_pos hmem]
  · next hfree =>
    rw [if_neg hfree] at h
    have hget : (unexpanded c.definitions expanding).get? name = c.resolve name := by
      rw [get?_unexpanded, if_neg hfree]
      rfl
    rcases hd : c.resolve name with _ | ⟨values, aliases⟩ | ⟨properties, required, descriptions⟩
    · exact ⟨nests_bare (.inr hd), fun n _ => hunknown (hget.trans hd) n⟩
    · refine ⟨nests_text _, fun n hn => ?_⟩
      obtain ⟨m, rfl, -⟩ := exists_depth_erase (hget.trans hd) hn
      change alternatives values = named (m + 1) (unexpanded c.definitions expanding) level name
      rw [named, hget, hd]
    · rw [hd] at h
      have hproperties (p : String × Schema) (hp : p ∈ properties) :
          IsWritten c (.expression (name :: expanding) (level + 1) [] p.2) _ :=
        h _ (List.mem_map.mpr ⟨p, hp, rfl⟩)
      refine ⟨nests_expanded hfree (nests_objectLayout fun p hp => (hproperties p hp).1), ?_⟩
      intro n hn
      obtain ⟨m, rfl, hm⟩ := exists_depth_erase (hget.trans hd) hn
      rw [← unexpanded_cons] at hm
      change (objectLayout level required descriptions _ properties).toText =
        named (m + 1) (unexpanded c.definitions expanding) level name
      rw [named, hget, hd, ← unexpanded_cons]
      exact toText_objectLayout fun p hp => (hproperties p hp).toText_eq hm

/-- The step of an expression. -/
theorem isWritten_expression
    (h : ∀ y ∈ expressionCalls c.resolve expanding level s, IsWritten c y (f y)) :
    IsWritten c (.expression expanding level further s)
      (expressionLayout c.resolve f expanding level further s) := by
  cases s with
  | array s =>
    have hs := h _ List.mem_cons_self
    refine ⟨nests_joined (by simp [nests_text, nests_itemLayout s hs.1]), fun n hn => ?_⟩
    change _ = expressionWith _ level (.array s)
    rw [expressionWith, ← hs.toText_eq hn, expressionLayout, toText_joined]
    simp [toText, toText_itemLayout, Text.joinWith]
  | optional s =>
    have hs := h _ List.mem_cons_self
    refine ⟨nests_joined (by simp [nests_text, hs.1]), fun n hn => ?_⟩
    change _ = expressionWith _ level (.optional s)
    rw [expressionWith, ← hs.toText_eq hn, expressionLayout, toText_joined]
    simp [toText, Text.joinWith]
  | map key value =>
    have hkey := h _ List.mem_cons_self
    have hvalue := h _ (List.mem_cons_of_mem _ List.mem_cons_self)
    refine ⟨nests_joined (by simp [nests_text, hkey.1, hvalue.1]), fun n hn => ?_⟩
    change _ = expressionWith _ level (.map key value)
    rw [expressionWith, ← hkey.toText_eq hn, ← hvalue.toText_eq hn, expressionLayout, toText_joined]
    simp [toText, Text.joinWith, String.append_assoc]
  | object properties required additional descriptions =>
    have hproperties (p : String × Schema) (hp : p ∈ properties) :
        IsWritten c (.expression expanding (level + 1) [] p.2) _ :=
      h _ (List.mem_map.mpr ⟨p, hp, rfl⟩)
    rw [expressionLayout]
    refine ⟨nests_objectLayout fun p hp => (hproperties p hp).1, fun n hn => ?_⟩
    exact toText_objectLayout fun p hp => (hproperties p hp).toText_eq hn
  | anyOf members =>
    have hmembers (s : Schema) (hs : s ∈ members) :
        IsWritten c (.expression expanding level [] s) _ :=
      h _ (List.mem_map.mpr ⟨s, hs, rfl⟩)
    refine ⟨nests_joined (List.forall_mem_map.mpr fun s hs => (hmembers s hs).1), fun n hn => ?_⟩
    change _ = expressionWith _ level (.anyOf members)
    rw [expressionWith, membersWith_eq_map, expressionLayout, toText_joined, List.map_map]
    exact congrArg _ (List.map_congr_left fun s hs => (hmembers s hs).toText_eq hn)
  | ref name => exact isWritten_ref h
  | string | int | float | bool | null | enum _ _ | external _ | literal _ =>
    exact ⟨nests_text _, fun n _ => rfl⟩

/-- The instruction for a name, by what is known about it. -/
theorem instruction_ref (known : Table Definition) (name : String) (further : Table Value) :
    Prompt.instruction known (.ref name) further = match known.get? name with
      | some (.enum values _) => categories values
      | some (.object properties required descriptions) =>
        led (objectAt (known.erase name) 0 properties required (Table.update descriptions further))
      | none => led name :=
  rfl

/-- The step of an instruction. -/
theorem isWritten_instruction
    (h : ∀ y ∈ instructionCalls c.resolve further s, IsWritten c y (f y)) :
    IsWritten c (.instruction further s) (instructionLayout c.resolve f further s) := by
  cases s with
  | string | int | float | bool | null | enum _ _ => exact ⟨nests_text _, rfl⟩
  | array s =>
    have hs := h _ List.mem_cons_self
    refine ⟨?_, ?_⟩
    · apply nests_joined
      simp [nests_text, nests_joined, nests_itemLayout s hs.1]
    · change _ = listLead ++ "\n" ++ asItem s (expressionAt c.definitions 0 s) ++ "[]"
      rw [← hs.toText_eq_expressionAt, instructionLayout]
      simp [toText, toTexts, toText_itemLayout, Text.joinWith, String.append_assoc]
  | anyOf members =>
    have hmembers (s : Schema) (hs : s ∈ members) : IsWritten c (.expression [] 0 [] s) _ :=
      h _ (List.mem_map.mpr ⟨s, hs, rfl⟩)
    have htexts : (members.map fun s => f (.expression [] 0 [] s)).map toText =
        members.map (expressionAt c.definitions 0) := by
      rw [List.map_map]
      exact List.map_congr_left fun s hs => (hmembers s hs).toText_eq_expressionAt
    refine ⟨?_, ?_⟩
    · have hjoined : (Layout.joined " | " (members.map fun s => f (.expression [] 0 [] s))).Nests
          c.resolve [] :=
        nests_joined (List.forall_mem_map.mpr fun s hs => (hmembers s hs).1)
      exact nests_joined (by simp [nests_text, hjoined])
    · change _ = "Answer with one of: " ++ Text.joinWith " | "
        (members.map (expressionAt c.definitions 0))
      rw [← htexts, ← toText_joined, instructionLayout]
      simp [toText, toTexts, Text.joinWith]
  | ref name =>
    rw [instructionCalls] at h
    rw [instructionLayout]
    have hget : c.definitions.get? name = c.resolve name := rfl
    rcases hd : c.resolve name with _ | ⟨values, aliases⟩ | ⟨properties, required, descriptions⟩
    · rw [hd] at h
      have hname := h _ List.mem_cons_self
      refine ⟨nests_ledLayout hname.1, ?_⟩
      rw [toText_ledLayout, hname.toText_eq_expression, instruction_ref, hget, hd]
      exact congrArg led (named_of_unknown (hget.trans hd) _ 0)
    · refine ⟨nests_text _, ?_⟩
      rw [instruction_ref, hget, hd]
      rfl
    · rw [hd] at h
      have hbody := h _ List.mem_cons_self
      refine ⟨nests_ledLayout (nests_expanded List.not_mem_nil hbody.1), ?_⟩
      have htext := hbody.2 _ (Nat.le_refl _)
      rw [unexpanded_cons, unexpanded_nil] at htext
      rw [toText_ledLayout, instruction_ref, hget, hd]
      exact congrArg led htext
  | map _ _ | object _ _ _ _ | external _ | optional _ | literal _ =>
    have hs := h _ List.mem_cons_self
    refine ⟨nests_ledLayout hs.1, ?_⟩
    exact (toText_ledLayout _).trans (congrArg led hs.toText_eq_expression)

/-- The step of an instruction behind definitions. -/
theorem isWritten_document {definitions : Table Schema} {root : Schema}
    (h : ∀ y ∈ calls c.resolve (.document definitions root), IsWritten c y (f y)) :
    IsWritten c (.document definitions root) (documentLayout c f definitions root) := by
  have hroot : IsWritten c (.expression definitions.names 0 [] root) _ :=
    h _ (List.mem_append_right _ List.mem_cons_self)
  have hentries (e : String × Schema) (he : e ∈ Target.sortByName definitions) :
      IsWritten c (.expression definitions.names 1 [] e.2) _ :=
    h _ (List.mem_append_left _ (List.mem_map.mpr ⟨e, he, rfl⟩))
  refine ⟨?_, ?_⟩
  · have hlines : ∀ l ∈ definitionLayouts c f definitions, l.Nests c.resolve definitions.names := by
      refine List.forall_mem_append.mpr ⟨List.forall_mem_map.mpr fun e he => ?_,
        List.forall_mem_map.mpr fun e _ => nests_text _⟩
      exact nests_joined (by simp [nests_text, (hentries e he).1])
    apply nests_joined
    refine List.forall_mem_append.mpr ⟨?_, by simp [nests_text, hroot.1]⟩
    split
    · exact List.forall_mem_nil _
    · exact List.forall_mem_append.mpr
        ⟨List.forall_mem_append.mpr ⟨by simp [nests_text], hlines⟩, by simp [nests_text]⟩
  · have hlines : (definitionLayouts c f definitions).map toText =
        (Target.sortByName definitions).map (fun e => "  " ++ e.1 ++ " = " ++
          expressionAt (unexpanded c.definitions definitions.names) 1 e.2)
        ++ (c.enumValues.filter fun e => !definitions.has e.1).map fun e =>
          "  " ++ e.1 ++ " = " ++ alternatives e.2 := by
      rw [definitionLayouts, List.map_append, List.map_map, List.map_map]
      refine congrArg₂ (· ++ ·) (List.map_congr_left fun e he => ?_) rfl
      have htext := (hentries e he).toText_eq (Nat.le_refl _)
      simp [toText, toTexts, Text.joinWith, htext, expressionAt]
    have htext := hroot.toText_eq (Nat.le_refl _)
    rw [instructionWithDefinitions, ← unexpanded_names, ← hlines, List.isEmpty_map, documentLayout,
      toText_joined]
    split <;> simp [toText, htext, expressionAt]

/-- A step of rendering writes what the passage says. -/
theorem isWritten_layout (x : Passage) (h : ∀ y ∈ calls c.resolve x, IsWritten c y (f y)) :
    IsWritten c x (layout c f x) := by
  cases x with
  | expression expanding level further s => exact isWritten_expression h
  | instruction further s => exact isWritten_instruction h
  | document definitions root => exact isWritten_document h

end Passage

/-- **What rendering ends with is what is written.** -/
theorem exists_isWritten (c : Catalog) (x : Passage) :
    ∃ l, (rendering c).Ends x l ∧ x.IsWritten c l := by
  obtain ⟨l, hl⟩ := rendering_ends c x
  exact ⟨l, hl, hl.sound fun f x => Passage.isWritten_layout x⟩

end ShapedReply.Prompt

namespace ShapedReply

open Prompt in
/-- **Whatever cycles the definitions of a catalog form, what follows names ends**: fitting and
checking for every value, and rendering for every schema. What is rendered nests, so that a name is
expanded at most once on the way to any place of it. -/
theorem recursion_ends (c : Catalog) :
    (∀ v s, (Fit.fitting c.resolve).Ends (v, s) (fit c.resolve v s)) ∧
    (∀ v s, (Check.checking c.resolve).Ends (v, s) (check c.resolve v s)) ∧
    (∀ s further level, ∃ l, (rendering c).Ends (.expression [] level further s) l ∧
      l.Nests c.resolve [] ∧
      express c.definitions s further level = showing (shown c.definitions s further) l.toText) ∧
    (∀ s further, ∃ l, (rendering c).Ends (.instruction further s) l ∧ l.Nests c.resolve [] ∧
      instruct c.definitions s further =
        showing (shownByInstruction c.definitions s further) l.toText) ∧
    ∀ root definitions, ∃ l, (rendering c).Ends (.document definitions root) l ∧
      l.Nests c.resolve definitions.names ∧
      instructWithDefinitions c root definitions =
        showing ((Target.sortByName definitions).flatMap (fun e =>
            shownBySchema (unexpanded c.definitions definitions.names) e.2)
          ++ shownBySchema (unexpanded c.definitions definitions.names) root) l.toText := by
  refine ⟨Fit.fitting_ends c.resolve, Check.checking_ends c.resolve, ?_, ?_, ?_⟩
  · intro s further level
    obtain ⟨l, hends, hwritten⟩ := exists_isWritten c (.expression [] level further s)
    refine ⟨l, hends, hwritten.1, ?_⟩
    rw [hwritten.toText_eq_expression]
    rfl
  · intro s further
    obtain ⟨l, hends, hnests, htext⟩ := exists_isWritten c (.instruction further s)
    refine ⟨l, hends, hnests, ?_⟩
    rw [htext]
    rfl
  · intro root definitions
    obtain ⟨l, hends, hnests, htext⟩ := exists_isWritten c (.document definitions root)
    refine ⟨l, hends, hnests, ?_⟩
    rw [htext, unexpanded_names]
    rfl

end ShapedReply
