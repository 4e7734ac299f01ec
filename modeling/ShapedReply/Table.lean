/-!
# Ordered tables

A table is a list of named entries in the order in which the names were first put in. Putting a name
a second time keeps its place and replaces what stands there, so names never repeat in a table that
was built by `put` (`names_put`, `nodup_names_put`).
-/

namespace ShapedReply

/-- Named entries in order. -/
abbrev Table (α : Type) := List (String × α)

namespace Table

variable {α β : Type}

/-- The names of a table, in order. -/
def names (t : Table α) : List String :=
  t.map (·.1)

/-- The entry under a name. -/
def get? (t : Table α) (name : String) : Option α :=
  t.lookup name

/-- Whether a table has a name. -/
def has (t : Table α) (name : String) : Bool :=
  (get? t name).isSome

/-- Puts an entry: in the place of the name if the table has it, at the end otherwise. -/
def put : Table α → String → α → Table α
  | [], name, a => [(name, a)]
  | (k, b) :: t, name, a => if k = name then (k, a) :: t else (k, b) :: put t name a

/-- Changes the entry under a name, if there is one. -/
def modify (t : Table α) (name : String) (f : α → α) : Table α :=
  match get? t name with
  | some a => put t name (f a)
  | none => t

/-- The table of a list of entries: a repeated name keeps its first place and its last entry. -/
def ofList (entries : List (String × α)) : Table α :=
  entries.foldl (fun t e => put t e.1 e.2) []

/-- A table over which the entries of another are put. -/
def update (t other : Table α) : Table α :=
  other.foldl (fun t e => put t e.1 e.2) t

/-- A table without a name. -/
def erase (t : Table α) (name : String) : Table α :=
  t.filter (·.1 != name)

/-- A table with every entry changed. -/
def mapEntries (f : α → β) (t : Table α) : Table β :=
  t.map fun e => (e.1, f e.2)

/-- An empty table has no names. -/
@[simp] theorem names_nil : names ([] : Table α) = [] := rfl

/-- The name of the first entry comes first. -/
@[simp] theorem names_cons (e : String × α) (t : Table α) : names (e :: t) = e.1 :: names t := rfl

/-- Putting adds a new name at the end and keeps an old one where it is. -/
theorem names_put (t : Table α) (name : String) (a : α) :
    names (put t name a) = if name ∈ names t then names t else names t ++ [name] := by
  induction t with
  | nil => simp [put]
  | cons e t ih =>
    obtain ⟨k, b⟩ := e
    by_cases h : k = name
    · simp [put, h]
    · have h' : ¬ name = k := fun e => h e.symm
      simp only [put, h, if_false, names_cons, List.mem_cons, h', false_or, ih]
      split <;> simp

/-- Putting never repeats a name. -/
theorem nodup_names_put {t : Table α} (h : (names t).Nodup) (name : String) (a : α) :
    (names (put t name a)).Nodup := by
  rw [names_put]
  split
  · exact h
  · next hn =>
    rw [List.nodup_append]
    refine ⟨h, by simp, ?_⟩
    intro x hx y hy
    simp only [List.mem_singleton] at hy
    subst hy
    exact fun e => hn (e ▸ hx)

/-- What was put under a name is found there. -/
theorem get?_put_self (t : Table α) (name : String) (a : α) :
    get? (put t name a) name = some a := by
  induction t with
  | nil => simp [put, get?]
  | cons e t ih =>
    obtain ⟨k, b⟩ := e
    by_cases h : k = name
    · simp [put, h, get?]
    · have h' : (name == k) = false := by simpa using fun e => h e.symm
      simpa [put, h, get?, List.lookup_cons, h'] using ih

/-- Putting under one name leaves the other entries alone. -/
theorem get?_put_of_ne (t : Table α) {name other : String} (h : other ≠ name) (a : α) :
    get? (put t name a) other = get? t other := by
  induction t with
  | nil =>
    have h' : (other == name) = false := by simpa using h
    simp [put, get?, List.lookup_cons, h']
  | cons e t ih =>
    obtain ⟨k, b⟩ := e
    by_cases hk : k = name
    · subst hk
      have h' : (other == k) = false := by simpa using h
      simp [put, get?, List.lookup_cons, h']
    · simp only [put, hk, if_false, get?, List.lookup_cons]
      split
      · rfl
      · exact ih

end Table

end ShapedReply
