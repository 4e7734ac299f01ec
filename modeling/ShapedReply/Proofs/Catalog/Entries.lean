import Mathlib.Data.List.Induction
import Mathlib.Data.List.Nodup
import ShapedReply.Catalog.Basic
import ShapedReply.Proofs.Table

/-!
# Entries take first declarations

An enum appends a value unless it has seen it, and a class appends a property unless it has one of
that name. So an entry that was given a list of declarations, one after the other, lists **the first
declaration of each value or property, in the order of their coming**
(`EnumEntry.IsConsistent.values_foldl_add`, `ClassEntry.IsConsistent.declared_foldl_add`).

* `firsts`: the first elements of a list with each key.
* `EnumEntry.IsConsistent`, `ClassEntry.IsConsistent`: an enum has seen exactly the values that it
  lists, and lists none twice; a class keeps each property under its own name, and none twice.
-/

namespace ShapedReply

/-! ## First elements -/

section Firsts

variable {α : Type} {key : α → String}

/-- The first elements with each key, in their order. -/
def firsts (key : α → String) (l : List α) : List α :=
  l.eraseDupsBy fun a b => key a == key b

/-- The first one stays, and what has its key goes. -/
theorem firsts_cons (a : α) (l : List α) :
    firsts key (a :: l) = a :: firsts key (l.filter fun b => key b != key a) := by
  rw [firsts, List.eraseDupsBy_cons, firsts]
  congr 3
  funext b
  cases hkey : key b == key a <;> simp [bne, hkey]

/-- One more element is dropped if its key has been there. -/
theorem firsts_concat (l : List α) (a : α) :
    firsts key (l ++ [a]) =
      if key a ∈ (firsts key l).map key then firsts key l else firsts key l ++ [a] := by
  -- What follows an element is filtered by its key, so the induction is on the length.
  induction hn : l.length using Nat.strongRecOn generalizing l with
  | ind n ih =>
    cases l with
    | nil => rfl
    | cons b l =>
      rw [List.cons_append, firsts_cons, firsts_cons, List.filter_append]
      by_cases hkey : key a = key b
      · simp [hkey]
      · have hshorter : (l.filter fun c => key c != key b).length < n := by
          have hle := List.length_filter_le (fun c => key c != key b) l
          rw [List.length_cons] at hn
          omega
        have hlast : [a].filter (fun c => key c != key b) = [a] := by simp [hkey]
        simp only [hlast, ih _ hshorter _ rfl, List.map_cons, List.mem_cons, hkey, false_or]
        split <;> rfl

/-- Elements with distinct keys are all first ones. -/
theorem firsts_of_nodup {l : List α} (h : (l.map key).Nodup) : firsts key l = l := by
  induction l with
  | nil => rfl
  | cons a l ih =>
    obtain ⟨hnew, hrest⟩ := List.nodup_cons.mp h
    have hall : ∀ b ∈ l, (key b != key a) = true := by
      intro b hb
      have hne : key b ≠ key a := fun heq => hnew (heq ▸ List.mem_map_of_mem hb)
      simpa using hne
    rw [firsts_cons, List.filter_eq_self.mpr hall, ih hrest]

/-- What lists an element unless its key is listed comes to list the first ones. -/
theorem listed_foldl {β : Type} {p : β → Prop} {listed : β → List α} {add : β → α → β}
    (hp : ∀ e a, p e → p (add e a))
    (hlisted : ∀ e a, p e → listed (add e a) =
      if key a ∈ (listed e).map key then listed e else listed e ++ [a])
    {e : β} (he : p e) (hnodup : ((listed e).map key).Nodup) (l : List α) :
    p (l.foldl add e) ∧ listed (l.foldl add e) = firsts key (listed e ++ l) := by
  induction l using List.reverseRecOn with
  | nil => exact ⟨he, by rw [List.append_nil, firsts_of_nodup hnodup, List.foldl_nil]⟩
  | append_singleton l a ih =>
    rw [List.foldl_append, ← List.append_assoc, firsts_concat, ← ih.2]
    exact ⟨hp _ a ih.1, hlisted _ a ih.1⟩

end Firsts

/-! ## Enums -/

namespace EnumEntry

variable {e : EnumEntry}

/-- An enum lists no value twice and has seen exactly the values that it lists. -/
structure IsConsistent (e : EnumEntry) : Prop where
  /-- No value is listed twice. -/
  nodup : (e.values.map (·.value)).Nodup
  /-- Seen is what is listed. -/
  seen : ∀ value, value ∈ e.seen ↔ value ∈ e.values.map (·.value)

/-- A new entry is consistent. -/
theorem isConsistent_new (name : String) : IsConsistent { name } where
  nodup := List.nodup_nil
  seen _ := Iff.rfl

/-- An entry stays consistent when something is added. -/
theorem IsConsistent.add (h : e.IsConsistent) (v : EnumValue) : (e.add v).IsConsistent := by
  unfold EnumEntry.add
  split
  · exact h
  · next hnew =>
    rw [List.contains_iff_mem, h.seen] at hnew
    constructor
    · rw [List.map_append, List.map_singleton]
      exact h.nodup.append (List.nodup_singleton _) (List.disjoint_singleton.mpr hnew)
    · intro value
      rw [List.mem_cons, h.seen, List.map_append, List.mem_append, List.map_singleton,
        List.mem_singleton, or_comm]

/-- An entry keeps its name. -/
theorem name_add (e : EnumEntry) (v : EnumValue) : (e.add v).name = e.name := by
  unfold add
  split <;> rfl

/-- Values are only ever appended. -/
theorem values_prefix_add (e : EnumEntry) (v : EnumValue) : e.values <+: (e.add v).values := by
  unfold add
  split
  · exact List.prefix_rfl
  · exact List.prefix_append _ _

/-- A value is appended unless it is there. -/
theorem IsConsistent.values_add (h : e.IsConsistent) (v : EnumValue) :
    (e.add v).values =
      if v.value ∈ e.values.map (·.value) then e.values else e.values ++ [v] := by
  simp only [EnumEntry.add, List.contains_iff_mem, h.seen]
  split <;> rfl

/-- **An enum lists the first of the values that it had and was given.** -/
theorem IsConsistent.values_foldl_add (h : e.IsConsistent) (values : List EnumValue) :
    (values.foldl EnumEntry.add e).values = firsts (·.value) (e.values ++ values) :=
  (listed_foldl (fun _ v h => h.add v) (fun _ v h => h.values_add v) h h.nodup values).2

end EnumEntry

/-! ## Classes -/

namespace ClassEntry

variable {e : ClassEntry}

/-- A class has no property twice and keeps each under its own name. -/
structure IsConsistent (e : ClassEntry) : Prop where
  /-- No name is there twice. -/
  nodup : (Table.names e.properties).Nodup
  /-- Properties stand under their own names. -/
  keyed : ∀ p ∈ e.properties, p.2.name = p.1

/-- A new entry is consistent. -/
theorem isConsistent_new (name : String) : IsConsistent { name } where
  nodup := List.nodup_nil
  keyed := nofun

/-- An entry stays consistent when something is added. -/
theorem IsConsistent.add (h : e.IsConsistent) (p : ClassProperty) : (e.add p).IsConsistent := by
  unfold ClassEntry.add
  split
  · exact h
  · refine ⟨Table.nodup_names_put h.nodup p.name p, ?_⟩
    intro q hq
    rcases Table.mem_put hq with rfl | hq
    · rfl
    · exact h.keyed q hq

/-- In a consistent class, the declared properties have the names that they stand under. -/
theorem IsConsistent.names_declared (h : e.IsConsistent) :
    e.declared.map (·.name) = Table.names e.properties := by
  rw [declared, List.map_map]
  exact List.map_congr_left h.keyed

/-- An entry keeps its name. -/
theorem name_add (e : ClassEntry) (p : ClassProperty) : (e.add p).name = e.name := by
  unfold add
  split <;> rfl

/-- A property is appended unless one of its name is there. -/
theorem IsConsistent.declared_add (h : e.IsConsistent) (p : ClassProperty) :
    (e.add p).declared =
      if p.name ∈ e.declared.map (·.name) then e.declared else e.declared ++ [p] := by
  rw [h.names_declared, ClassEntry.add]
  by_cases hold : p.name ∈ Table.names e.properties
  · rw [if_pos (Table.has_iff.mpr hold), if_pos hold]
  · rw [if_neg (mt Table.has_iff.mp hold), if_neg hold, declared, declared,
      Table.put_of_not_mem hold, List.map_append, List.map_singleton]

/-- Properties are only ever appended. -/
theorem declared_prefix_add (e : ClassEntry) (p : ClassProperty) :
    e.declared <+: (e.add p).declared := by
  unfold add
  split
  · exact List.prefix_rfl
  · next hnew =>
    rw [declared, declared, Table.put_of_not_mem (mt Table.has_iff.mpr hnew), List.map_append]
    exact List.prefix_append _ _

/-- **A class lists the first of the properties that it had and was given.** -/
theorem IsConsistent.declared_foldl_add (h : e.IsConsistent) (properties : List ClassProperty) :
    (properties.foldl ClassEntry.add e).declared = firsts (·.name) (e.declared ++ properties) :=
  (listed_foldl (fun _ p h => h.add p) (fun _ p h => h.declared_add p) h
    (h.names_declared.symm ▸ h.nodup) properties).2

end ClassEntry

end ShapedReply
