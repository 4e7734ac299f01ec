import ShapedReply.Table

/-!
# Looking things up in tables

What is found under a name in a table that was changed or put together from others. A table has a
name when the name is among its names (`has_iff`), and it has the same names after its entries have
been changed (`names_mapEntries`). What is put under a new name stands at the end
(`put_of_not_mem`). A change to one entry leaves the names and the other entries as they are
(`names_modify`, `get?_modify`).
-/

namespace ShapedReply.Table

variable {α β : Type} {t : Table α} {name : String}

/-- The first entry is found first. -/
theorem get?_cons (k : String) (a : α) (t : Table α) (name : String) :
    get? ((k, a) :: t) name = if k = name then some a else get? t name := by
  rw [get?, List.lookup_cons]
  by_cases h : k = name
  · simp [h]
  · have hbeq : (name == k) = false := by simpa using Ne.symm h
    simp [h, hbeq, get?]

/-- A table has the names that stand in it. -/
theorem has_iff : has t name = true ↔ name ∈ names t := by
  rw [has, get?, List.lookup_isSome_iff, names, List.mem_map]
  constructor
  · rintro ⟨e, he, hname⟩
    exact ⟨e, he, (beq_iff_eq.mp hname).symm⟩
  · rintro ⟨e, he, rfl⟩
    exact ⟨e, he, beq_self_eq_true e.1⟩

/-- A name is not found exactly if it is not there. -/
theorem get?_eq_none_iff : get? t name = none ↔ name ∉ names t := by
  rw [← has_iff, has]
  cases get? t name <;> simp

/-- What is found stands in the table. -/
theorem mem_of_get? {a : α} (h : get? t name = some a) : (name, a) ∈ t := by
  obtain ⟨before, after, rfl, -⟩ := List.lookup_eq_some_iff.mp h
  simp

/-! ## Changed tables -/

/-- After putting, an entry is the new one or an old one. -/
theorem mem_put {a : α} {e : String × α} (h : e ∈ put t name a) : e = (name, a) ∨ e ∈ t := by
  induction t with
  | nil => exact .inl (by simpa [put] using h)
  | cons d t ih =>
    obtain ⟨k, b⟩ := d
    by_cases hk : k = name
    · rw [put, if_pos hk, List.mem_cons] at h
      rcases h with rfl | h
      · exact .inl (by rw [hk])
      · exact .inr (List.mem_cons_of_mem _ h)
    · rw [put, if_neg hk, List.mem_cons] at h
      rcases h with rfl | h
      · exact .inr List.mem_cons_self
      · exact (ih h).imp_right (List.mem_cons_of_mem _)

/-- A name is there after a write exactly if it was written or there before. -/
theorem has_put (t : Table α) (name : String) (a : α) (other : String) :
    has (put t name a) other = true ↔ other = name ∨ has t other = true := by
  rw [has_iff, has_iff, names_put]
  split
  · next hmem => exact ⟨.inr, Or.rec (· ▸ hmem) id⟩
  · rw [List.mem_append, List.mem_singleton, or_comm]

/-- What is put over a table is found among the old or the new entries. -/
theorem mem_update {other : Table α} {e : String × α} (h : e ∈ update t other) :
    e ∈ t ∨ e ∈ other := by
  induction other generalizing t with
  | nil => exact .inl h
  | cons d other ih =>
    rcases ih (t := put t d.1 d.2) h with h | h
    · rcases mem_put h with rfl | h
      · exact .inr List.mem_cons_self
      · exact .inl h
    · exact .inr (List.mem_cons_of_mem d h)

/-- New values for the old ones keep the names. -/
theorem names_map (g : String × α → β) (t : Table α) :
    names (t.map fun e => (e.1, g e)) = names t := by
  simp [names]

/-- What is found after a change of each entry. -/
theorem get?_map (g : String × α → β) (t : Table α) (name : String) :
    get? (t.map fun e => (e.1, g e)) name = (get? t name).map fun a => g (name, a) := by
  induction t with
  | nil => rfl
  | cons e t ih =>
    obtain ⟨k, a⟩ := e
    rw [get?_cons, List.map_cons, get?_cons, ih]
    by_cases hname : k = name
    · rw [if_pos hname, if_pos hname, Option.map_some, hname]
    · rw [if_neg hname, if_neg hname]

/-- A change of the values keeps the names. -/
theorem names_mapEntries (f : α → β) (t : Table α) : names (mapEntries f t) = names t :=
  names_map (fun e => f e.2) t

/-- What is found after a change of the values. -/
theorem get?_mapEntries (f : α → β) (t : Table α) (name : String) :
    get? (mapEntries f t) name = (get? t name).map f :=
  get?_map (fun e => f e.2) t name

/-- A change of the values keeps which names are there. -/
theorem has_mapEntries (f : α → β) (t : Table α) (name : String) :
    has (mapEntries f t) name = has t name := by
  rw [has, has, get?_mapEntries, Option.isSome_map]

/-- Names are erased before or after a change of the values. -/
theorem erase_mapEntries (f : α → β) (t : Table α) (name : String) :
    erase (mapEntries f t) name = mapEntries f (erase t name) := by
  rw [erase, mapEntries, List.filter_map]
  rfl

/-- An erased name is not found. -/
theorem get?_erase_self (t : Table α) (name : String) : get? (erase t name) name = none := by
  rw [get?_eq_none_iff]
  intro h
  obtain ⟨e, he, rfl⟩ := List.mem_map.mp h
  simp [erase] at he

/-- Other names are found as before. -/
theorem get?_erase_of_ne (t : Table α) {name other : String} (h : other ≠ name) :
    get? (erase t name) other = get? t other := by
  induction t with
  | nil => rfl
  | cons e t ih =>
    obtain ⟨k, a⟩ := e
    by_cases hk : k = name
    · have hdrop : erase ((k, a) :: t) name = erase t name := by simp [erase, hk]
      rw [hdrop, ih, get?_cons, if_neg (by rw [hk]; exact Ne.symm h)]
    · have hkeep : erase ((k, a) :: t) name = (k, a) :: erase t name := by simp [erase, hk]
      rw [hkeep, get?_cons, get?_cons, ih]

/-- A table is shorter without a name that it has. -/
theorem length_erase_lt {t : Table α} {name : String} {a : α} (h : get? t name = some a) :
    (erase t name).length < t.length := by
  rw [erase, List.length_filter_lt_length_iff_exists]
  exact ⟨(name, a), mem_of_get? h, by simp⟩

/-! ## Tables without repeated names -/

/-- In a table without repeated names, what stands under a name is what the name finds. -/
theorem get?_of_mem {t : Table α} (h : (names t).Nodup) {e : String × α} (he : e ∈ t) :
    t.lookup e.1 = some e.2 := by
  induction t with
  | nil => exact absurd he List.not_mem_nil
  | cons f t ih =>
    obtain ⟨hf, ht⟩ := List.nodup_cons.mp h
    obtain ⟨k, b⟩ := f
    rcases List.mem_cons.mp he with rfl | he
    · exact List.lookup_cons_self
    · have hne : e.1 ≠ k := by
        intro heq
        exact hf (List.mem_map.mpr ⟨e, he, heq⟩)
      have hbeq : (e.1 == k) = false := by simpa using hne
      rw [List.lookup_cons, hbeq]
      exact ih ht he

/-- A new name is put at the end. -/
theorem put_of_not_mem (h : name ∉ names t) (a : α) :
    put t name a = t ++ [(name, a)] := by
  induction t with
  | nil => rfl
  | cons e t ih =>
    rw [names_cons, List.mem_cons, not_or] at h
    rw [put, if_neg (Ne.symm h.1), ih h.2, List.cons_append]

/-- Putting new names one after the other adds them in their order. -/
theorem update_of_nodup {t ps : Table α} (h : (names (t ++ ps)).Nodup) : update t ps = t ++ ps := by
  induction ps generalizing t with
  | nil => rw [List.append_nil]; rfl
  | cons e ps ih =>
    have hnew : e.1 ∉ names t := by
      have hsplit : names (t ++ e :: ps) = names t ++ e.1 :: names ps := by simp [names]
      rw [hsplit] at h
      exact fun hmem => (List.nodup_append.mp h).2.2 _ hmem _ List.mem_cons_self rfl
    have hrest := @ih (t ++ [e])
    rw [List.append_assoc, List.singleton_append] at hrest
    show update (put t e.1 e.2) ps = _
    rw [put_of_not_mem hnew, hrest h]

/-- A list without repeated names is its own table. -/
theorem ofList_of_nodup {ps : List (String × α)} (h : (names ps).Nodup) : ofList ps = ps :=
  update_of_nodup (t := []) h

/-- A table over which entries are put repeats no name. -/
theorem nodup_names_update (h : (names t).Nodup) (ps : List (String × α)) :
    (names (update t ps)).Nodup := by
  induction ps generalizing t with
  | nil => exact h
  | cons e ps ih => exact ih (t := put t e.1 e.2) (nodup_names_put h e.1 e.2)

/-- The table of a list repeats no name. -/
theorem nodup_names_ofList (ps : List (String × α)) : (names (ofList ps)).Nodup :=
  nodup_names_update (t := []) List.nodup_nil ps

/-! ## A last entry -/

/-- A new entry at the end is found where the name was not there. -/
theorem get?_concat (t : Table α) (name : String) (a : α) (other : String) :
    get? (t ++ [(name, a)]) other = (get? t other).or (if name = other then some a else none) := by
  rw [get?, List.lookup_append]
  congr 1
  exact get?_cons name a [] other

/-- Putting under the last name replaces the last entry. -/
theorem put_concat (h : name ∉ names t) (a b : α) :
    put (t ++ [(name, a)]) name b = t ++ [(name, b)] := by
  induction t with
  | nil => exact if_pos rfl
  | cons e t ih =>
    rw [names_cons, List.mem_cons, not_or] at h
    rw [List.cons_append, put, if_neg (Ne.symm h.1), ih h.2, List.cons_append]

/-! ## Changing an entry -/

/-- A change of one value keeps the names. -/
theorem names_modify (t : Table α) (name : String) (f : α → α) :
    names (modify t name f) = names t := by
  unfold modify
  split
  · next a ha => rw [names_put, if_pos (has_iff.mp (by rw [has, ha]; rfl))]
  · rfl

/-- What is found after a change of one value. -/
theorem get?_modify (t : Table α) (name : String) (f : α → α) (other : String) :
    get? (modify t name f) other = if name = other then (get? t other).map f else get? t other := by
  unfold modify
  split
  · next a ha =>
    split
    · next heq =>
      subst heq
      rw [get?_put_self, ha]
      rfl
    · next hne => rw [get?_put_of_ne t (Ne.symm hne)]
  · next hnone =>
    split
    · next heq =>
      rw [← heq, hnone]
      rfl
    · rfl

/-- A change of one value keeps which names are there. -/
theorem has_modify (t : Table α) (name : String) (f : α → α) (other : String) :
    has (modify t name f) other = has t other := by
  rw [Bool.eq_iff_iff, has_iff, has_iff, names_modify]

/-- What holds of all entries holds of them after a change that keeps it. -/
theorem forall_modify {p : String × α → Prop} (h : ∀ e ∈ t, p e) {f : α → α}
    (hf : ∀ e ∈ t, p e → p (e.1, f e.2)) (name : String) : ∀ e ∈ modify t name f, p e := by
  intro e he
  unfold modify at he
  split at he
  · next a ha =>
    rcases mem_put he with rfl | he
    · exact hf _ (mem_of_get? ha) (h _ (mem_of_get? ha))
    · exact h e he
  · exact h e he

/-- Changes to the last entry, one after the other. -/
theorem foldl_modify_concat {β : Type} (h : name ∉ names t) (f : α → β → α) (bs : List β) (a : α) :
    bs.foldl (fun t b => modify t name (f · b)) (t ++ [(name, a)]) =
      t ++ [(name, bs.foldl f a)] := by
  induction bs generalizing a with
  | nil => rfl
  | cons b bs ih =>
    have hfirst : modify (t ++ [(name, a)]) name (f · b) = t ++ [(name, f a b)] := by
      rw [modify, get?_concat, get?_eq_none_iff.mpr h, if_pos rfl]
      exact put_concat h a (f a b)
    rw [List.foldl_cons, hfirst, ih, List.foldl_cons]

end ShapedReply.Table
