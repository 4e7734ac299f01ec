import ShapedReply.Catalog.Closure
import ShapedReply.Proofs.Table

/-!
# The definitions that a schema needs are complete

Collecting takes each definition out of what is known, so it ends, and what it has collected by then
is closed: **the definitions that a schema needs are those of the catalog, and every name that the
schema or one of them refers to means the same in both** (`covers_needed`). In particular a name
without a definition among them has none in the catalog.
-/

namespace ShapedReply

namespace Catalog

/-- The definitions found from some names are known ones, each found once, and what is asked for or
referred to by what is found means the same as before. -/
structure Covers (known : Table Definition) (pending : List String) (found : Table Definition) :
    Prop where
  /-- Nothing is found twice. -/
  nodup : (Table.names found).Nodup
  /-- What is found is known. -/
  sound : ∀ {name d}, Table.get? found name = some d → Table.get? known name = some d
  /-- What is asked for is found if it is known. -/
  asked : ∀ {name}, name ∈ pending → Table.get? found name = Table.get? known name
  /-- What is referred to is found if it is known. -/
  closed : ∀ {name} {e}, e ∈ found → name ∈ e.2.toSchema.references →
    Table.get? found name = Table.get? known name

variable {known found : Table Definition} {pending : List String}

/-- The first known name comes after unknown ones. -/
theorem nextKnown_eq_some {name : String} {d : Definition} {rest : List String}
    (h : nextKnown known pending = some (name, d, rest)) :
    Table.get? known name = some d ∧ ∃ unknown, pending = unknown ++ name :: rest ∧
      ∀ other ∈ unknown, Table.get? known other = none := by
  induction pending with
  | nil => cases h
  | cons first pending ih =>
    rw [nextKnown] at h
    rcases hfirst : Table.get? known first with _ | d'
    · rw [hfirst] at h
      obtain ⟨hname, unknown, rfl, hunknown⟩ := ih h
      exact ⟨hname, first :: unknown, rfl, List.forall_mem_cons.mpr ⟨hfirst, hunknown⟩⟩
    · rw [hfirst] at h
      cases h
      exact ⟨hfirst, [], rfl, fun _ hother => absurd hother List.not_mem_nil⟩

/-- Without a first known name no name is known. -/
theorem nextKnown_eq_none (h : nextKnown known pending = none) :
    ∀ name ∈ pending, Table.get? known name = none := by
  induction pending with
  | nil => simp
  | cons first pending ih =>
    rw [nextKnown] at h
    rcases hfirst : Table.get? known first with _ | d
    · rw [hfirst] at h
      exact List.forall_mem_cons.mpr ⟨hfirst, ih h⟩
    · rw [hfirst] at h
      cases h

/-- Nothing is found from names of which none is known. -/
theorem Covers.of_unknown (h : ∀ name ∈ pending, Table.get? known name = none) :
    Covers known pending [] where
  nodup := List.nodup_nil
  sound := nofun
  asked hname := (h _ hname).symm
  closed := nofun

/-- What is unknown is not found. -/
theorem Covers.get?_eq_none {name : String} (h : Covers known pending found)
    (hname : Table.get? known name = none) : Table.get? found name = none := by
  rcases hfound : Table.get? found name with _ | d
  · rfl
  · rw [h.sound hfound] at hname
    exact hname

/-- One step of the search: a known name is put in front of what is found without it. -/
theorem Covers.cons {name : String} {d : Definition} {rest : List String}
    (hname : Table.get? known name = some d) {unknown : List String}
    (hunknown : ∀ other ∈ unknown, Table.get? known other = none)
    (h : Covers (Table.erase known name) (rest ++ d.toSchema.references) found) :
    Covers known (unknown ++ name :: rest) ((name, d) :: found) := by
  -- Apart from the first name, what is known without it is what is known.
  have hfind {other : String} (hlater : other ≠ name →
      Table.get? found other = Table.get? (Table.erase known name) other) :
      Table.get? ((name, d) :: found) other = Table.get? known other := by
    rw [Table.get?_cons]
    split
    · next heq => rw [← heq, hname]
    · next hne => rw [hlater (Ne.symm hne), Table.get?_erase_of_ne known (Ne.symm hne)]
  constructor
  · rw [Table.names_cons, List.nodup_cons, ← Table.get?_eq_none_iff]
    exact ⟨h.get?_eq_none (Table.get?_erase_self known name), h.nodup⟩
  · intro other d' hfound
    rw [Table.get?_cons] at hfound
    split at hfound
    · next heq => rw [← heq, hname, hfound]
    · next hne =>
      rw [← Table.get?_erase_of_ne known (Ne.symm hne)]
      exact h.sound hfound
  · intro other hother
    apply hfind
    intro hne
    rcases List.mem_append.mp hother with hother | hother
    · have hgone : Table.get? (Table.erase known name) other = none := by
        rw [Table.get?_erase_of_ne known hne, hunknown other hother]
      rw [hgone, h.get?_eq_none hgone]
    · rcases List.mem_cons.mp hother with heq | hother
      · exact absurd heq hne
      · exact h.asked (List.mem_append_left _ hother)
  · intro other e he hother
    apply hfind
    intro _
    rcases List.mem_cons.mp he with rfl | he
    · exact h.asked (List.mem_append_right _ hother)
    · exact h.closed he hother

/-- Collecting with as many steps as there are known definitions finds everything. -/
theorem covers_collect {n : Nat} (h : known.length ≤ n) :
    Covers known pending (collect n known pending) := by
  induction n generalizing known pending with
  | zero =>
    obtain rfl : known = [] := List.length_eq_zero_iff.mp (Nat.le_zero.mp h)
    exact .of_unknown fun _ _ => rfl
  | succ n ih =>
    rw [collect]
    rcases hnext : nextKnown known pending with _ | ⟨name, d, rest⟩
    · exact .of_unknown (nextKnown_eq_none hnext)
    · obtain ⟨hname, unknown, rfl, hunknown⟩ := nextKnown_eq_some hnext
      refine .cons hname hunknown (ih ?_)
      -- The name was known, so leaving it out leaves fewer definitions.
      have hshorter : (Table.erase known name).length < known.length :=
        List.length_filter_lt_length_iff_exists.mpr ⟨_, Table.mem_of_get? hname, by simp⟩
      omega

/-- **The definitions that a schema needs are complete.** -/
theorem covers_needed (c : Catalog) (s : Schema) :
    Covers c.definitions s.references (c.needed s) :=
  covers_collect (Nat.le_refl _)

end Catalog

end ShapedReply
