import Mathlib.Data.List.Nodup
import ShapedReply.Proofs.Table
import ShapedReply.Proofs.Target.KeyWords
import ShapedReply.Target.Restyle

/-!
# Renaming the keys of a map

Renaming takes the keys that count as they stand first and the others by their snake style behind
them, as far as their places are free. For a model whose field names are made of words, and a map
whose keys spell field names, no two of them the same one, every place is free: **renaming gives
each entry the name that its key spells, and changes nothing but the order** (`perm_renamed`).

* `Spells`: a key is a name or the same words in camel case. Snake style tells which name it spells
  (`snakeKey_of_spells`), so that a key that happens to be a field name spells that name and no
  other.
* `HasWordNames`: fields that are given by their names, which are made of words and do not repeat.
-/

namespace ShapedReply

/-! ## Names and their spellings -/

namespace KeyStyle

/-- A name that is made of words. -/
def IsName (name : String) : Prop :=
  ∃ words : List Text, words ≠ [] ∧ (∀ w ∈ words, isWord w = true) ∧
    name = String.ofList (underscored words)

/-- A key spells a name when it is the name, or the words of the name in camel case. -/
def Spells (key name : String) : Prop :=
  key = name ∨ ∃ words : List Text, (∀ w ∈ words, isWord w = true) ∧
    name = String.ofList (underscored words) ∧ key = String.ofList (camel words)

/-- A name is in snake style. -/
theorem snakeKey_of_isName {name : String} (h : IsName name) : snakeKey name = name := by
  obtain ⟨words, -, hwords, rfl⟩ := h
  rw [snakeKey, String.toList_ofList, snake_underscored hwords]

/-- Snake style tells the name that a key spells. -/
theorem snakeKey_of_spells {key name : String} (hname : IsName name) (h : Spells key name) :
    snakeKey key = name := by
  rcases h with rfl | ⟨words, hwords, rfl, rfl⟩
  · exact snakeKey_of_isName hname
  · rw [snakeKey, String.toList_ofList, snake_camel hwords]

/-- A name is not empty. -/
theorem ne_empty_of_isName {name : String} (h : IsName name) : name ≠ "" := by
  obtain ⟨words, hne, hwords, rfl⟩ := h
  obtain ⟨w, ws, rfl⟩ := List.exists_cons_of_ne_nil hne
  obtain ⟨c, r, rfl, -⟩ := exists_of_isWord (hwords w List.mem_cons_self)
  intro hempty
  have htext := congrArg String.toList hempty
  rw [String.toList_ofList, underscored_cons] at htext
  cases htext

end KeyStyle

namespace Restyle

open KeyStyle

variable {fields : List (FieldInfo × Target)}

/-! ## Fields with word names -/

/-- The fields of a model are given by their names, which are made of words and do not repeat. -/
structure HasWordNames (fields : List (FieldInfo × Target)) : Prop where
  /-- No name is there twice. -/
  nodup : (fields.map (·.1.name)).Nodup
  /-- Fields are given by their names. -/
  ownKeys : ∀ f ∈ fields, f.1.givenAs = none
  /-- Names are made of words. -/
  words : ∀ f ∈ fields, IsName f.1.name

/-- Fields are spelled by their names only. -/
theorem HasWordNames.spellings_eq (h : HasWordNames fields) {f : FieldInfo × Target}
    (hf : f ∈ fields) : spellings f.1 = [f.1.name] := by
  have hne := ne_empty_of_isName (h.words f hf)
  simp [spellings, h.ownKeys f hf, hne]

/-- Fields are given by their names. -/
theorem HasWordNames.key_eq (h : HasWordNames fields) {f : FieldInfo × Target} (hf : f ∈ fields) :
    f.1.key = f.1.name := by
  rw [FieldInfo.key, h.ownKeys f hf]
  rfl

/-- Fields are known by their names. -/
theorem HasWordNames.knownAs_eq (h : HasWordNames fields) {f : FieldInfo × Target}
    (hf : f ∈ fields) : f.1.knownAs = f.1.name := by
  rw [FieldInfo.knownAs, h.key_eq hf, if_neg (ne_empty_of_isName (h.words f hf))]

/-- New names are put one behind the other. -/
theorem foldl_putNew {α β : Type} {key : β → String} {val : β → α} {l : List β} {t : Table α}
    (h : (t.names ++ l.map key).Nodup) :
    l.foldl (fun t b => putNew t (key b) (val b)) t = t ++ l.map fun b => (key b, val b) := by
  induction l generalizing t with
  | nil => rw [List.foldl_nil, List.map_nil, List.append_nil]
  | cons b l ih =>
    have hnew : key b ∉ t.names := by
      intro hmem
      exact (List.nodup_append.mp h).2.2 _ hmem _ List.mem_cons_self rfl
    have hput : putNew t (key b) (val b) = t ++ [(key b, val b)] := by
      rw [putNew, if_neg (mt Table.has_iff.mp hnew), Table.put_of_not_mem hnew]
    have hrest : (Table.names (t ++ [(key b, val b)]) ++ l.map key).Nodup := by
      rw [Table.names, List.map_append, List.append_assoc]
      exact h
    rw [List.foldl_cons, hput, ih hrest, List.append_assoc]
    rfl

/-- The names of the fields, each as its own key. -/
def ownNames (fields : List (FieldInfo × Target)) : Table String :=
  fields.map fun f => (f.1.name, f.1.name)

/-- Distinct names are all taken. -/
theorem HasWordNames.foldl_putNew_names (h : HasWordNames fields) :
    fields.foldl (fun t f => putNew t f.1.name f.1.name) [] = ownNames fields := by
  have hnodup : (Table.names ([] : Table String) ++ fields.map (·.1.name)).Nodup := h.nodup
  exact foldl_putNew hnodup

/-- The keys that count as they stand are the names. -/
theorem HasWordNames.exactKeys_eq (h : HasWordNames fields) :
    exactKeys fields = ownNames fields := by
  rw [← h.foldl_putNew_names]
  refine List.foldl_ext _ _ _ fun t f hf => ?_
  rw [h.spellings_eq hf, h.knownAs_eq hf]
  rfl

/-- The keys in snake style are the names. -/
theorem HasWordNames.looseKeys_eq (h : HasWordNames fields) :
    looseKeys fields = ownNames fields := by
  rw [← h.foldl_putNew_names]
  refine List.foldl_ext _ _ _ fun t f hf => ?_
  rw [h.spellings_eq hf, h.knownAs_eq hf, List.foldl_cons, List.foldl_nil,
    snakeKey_of_isName (h.words f hf)]

/-- Fields with keys of their own are found by these. -/
theorem get?_types (h : (fields.map (·.1.knownAs)).Nodup) {f : FieldInfo × Target}
    (hf : f ∈ fields) :
    Table.get? (types fields) f.1.knownAs = some f.2 := by
  have hfold : types fields = Table.ofList (fields.map fun f => (f.1.knownAs, f.2)) := by
    rw [types, Table.ofList, List.foldl_map]
  have hnames : (Table.names (fields.map fun f => (f.1.knownAs, f.2))).Nodup := by
    rw [Table.names, List.map_map]
    exact h
  have hmem : (f.1.knownAs, f.2) ∈ fields.map fun f => (f.1.knownAs, f.2) := List.mem_map_of_mem hf
  rw [hfold, Table.ofList_of_nodup hnames]
  exact Table.get?_of_mem hnames hmem

/-- The type of a field is found under its name. -/
theorem HasWordNames.get?_types (h : HasWordNames fields) {f : FieldInfo × Target}
    (hf : f ∈ fields) : Table.get? (types fields) f.1.name = some f.2 := by
  have hkeys : fields.map (·.1.knownAs) = fields.map (·.1.name) :=
    List.map_congr_left fun f hf => h.knownAs_eq hf
  rw [← h.knownAs_eq hf]
  exact Restyle.get?_types (hkeys ▸ h.nodup) hf

/-- A name of a field stands for itself, and nothing else does for anything. -/
theorem get?_ownNames (fields : List (FieldInfo × Target)) (name : String) :
    Table.get? (ownNames fields) name =
      if name ∈ fields.map (·.1.name) then some name else none := by
  induction fields with
  | nil => rfl
  | cons f fields ih =>
    rw [ownNames, List.map_cons, Table.get?_cons, ← ownNames, ih]
    by_cases hname : f.1.name = name
    · rw [if_pos hname, if_pos (hname ▸ List.mem_cons_self), hname]
    · have hmem : name ∈ (f :: fields).map (·.1.name) ↔ name ∈ fields.map (·.1.name) := by
        rw [List.map_cons, List.mem_cons, or_iff_right (Ne.symm hname)]
      simp only [if_neg hname, hmem]

/-! ## Entries under the names that they spell -/

/-- Entries under the snake style of their keys. -/
def snaked (entries : List (String × Waiting)) : Table Waiting :=
  entries.map fun e => (snakeKey e.1, e.2)

/-- Whether a key is a field name. -/
def isOwn (fields : List (FieldInfo × Target)) (e : String × Waiting) : Bool :=
  decide (e.1 ∈ fields.map (·.1.name))

/-- The entries under names of fields are taken as they are. -/
theorem takeExact_ownNames {entries : List (String × Waiting)} {t : Table Waiting}
    (h : (Table.names (t ++ entries.filter (isOwn fields))).Nodup) :
    entries.foldl (fun t e => match Table.get? (ownNames fields) e.1 with
      | some key => Table.put t key e.2
      | none => t) t = t ++ entries.filter (isOwn fields) := by
  induction entries generalizing t with
  | nil => rw [List.foldl_nil, List.filter_nil, List.append_nil]
  | cons e entries ih =>
    rw [List.foldl_cons, get?_ownNames]
    by_cases hown : e.1 ∈ fields.map (·.1.name)
    · have hfilter : (e :: entries).filter (isOwn fields) = e :: entries.filter (isOwn fields) :=
        List.filter_cons_of_pos (by simpa [isOwn] using hown)
      rw [hfilter, List.append_cons] at h ⊢
      have hnew : e.1 ∉ Table.names t := by
        intro hmem
        rw [List.append_assoc, Table.names, List.map_append] at h
        exact (List.nodup_append.mp h).2.2 _ hmem _ List.mem_cons_self rfl
      rw [if_pos hown]
      simp only
      rw [Table.put_of_not_mem hnew, ih h]
    · have hfilter : (e :: entries).filter (isOwn fields) = entries.filter (isOwn fields) :=
        List.filter_cons_of_neg (by simpa [isOwn] using hown)
      rw [hfilter] at h ⊢
      rw [if_neg hown]
      exact ih h

/-- The other entries go behind, under the names that they spell, if those are free. -/
theorem addLoose_ownNames {entries : List (String × Waiting)} {t : Table Waiting}
    (hspelled : ∀ e ∈ entries, snakeKey e.1 ∈ fields.map (·.1.name))
    (h : (Table.names (t ++ snaked (entries.filter fun e => !isOwn fields e))).Nodup) :
    addLoose (ownNames fields) (ownNames fields) t entries =
      t ++ snaked (entries.filter fun e => !isOwn fields e) := by
  induction entries generalizing t with
  | nil => rw [addLoose, List.foldl_nil, List.filter_nil, snaked, List.map_nil, List.append_nil]
  | cons e entries ih =>
    obtain ⟨hspells, hlater⟩ := List.forall_mem_cons.mp hspelled
    have hhas : Table.has (ownNames fields) e.1 = isOwn fields e := by
      rw [Table.has, get?_ownNames, isOwn]
      by_cases hown : e.1 ∈ fields.map (·.1.name)
      · rw [if_pos hown, decide_eq_true hown]
        rfl
      · rw [if_neg hown, decide_eq_false hown]
        rfl
    rw [addLoose, List.foldl_cons, hhas, get?_ownNames, if_pos hspells]
    cases hown : isOwn fields e with
    | true =>
      rw [List.filter_cons_of_neg (by simp [hown])] at h ⊢
      exact ih hlater h
    | false =>
      rw [List.filter_cons_of_pos (by simp [hown]), snaked, List.map_cons, ← snaked,
        List.append_cons] at h ⊢
      have hnew : snakeKey e.1 ∉ Table.names t := by
        intro hmem
        rw [List.append_assoc, Table.names, List.map_append] at h
        exact (List.nodup_append.mp h).2.2 _ hmem _ List.mem_cons_self rfl
      have hfree : Table.has t (snakeKey e.1) = false := by
        simpa using mt Table.has_iff.mp hnew
      simp only [Bool.false_eq_true, if_false, hfree]
      rw [Table.put_of_not_mem hnew]
      exact ih hlater h

/-- **Renaming gives each entry the name that its key spells**, in some order. -/
theorem perm_renamed (h : HasWordNames fields) {entries : List (String × Waiting)}
    (hspelled : ∀ e ∈ entries, snakeKey e.1 ∈ fields.map (·.1.name))
    (hnodup : (Table.names (snaked entries)).Nodup) :
    (addLoose (exactKeys fields) (looseKeys fields) (takeExact (exactKeys fields) entries)
      entries).Perm (snaked entries) := by
  have hown : snaked (entries.filter (isOwn fields)) = entries.filter (isOwn fields) := by
    refine (List.map_congr_left fun e he => ?_).trans (List.map_id' _)
    have hmem : e.1 ∈ fields.map (·.1.name) := by
      simpa [isOwn] using (List.mem_filter.mp he).2
    obtain ⟨f, hf, hname⟩ := List.mem_map.mp hmem
    rw [← hname, snakeKey_of_isName (h.words f hf), hname]
  have hperm : (entries.filter (isOwn fields) ++
      snaked (entries.filter fun e => !isOwn fields e)).Perm (snaked entries) := by
    rw [← hown, snaked, snaked, ← List.map_append]
    exact (List.filter_append_perm (isOwn fields) entries).map _
  have hall : (Table.names (entries.filter (isOwn fields) ++
      snaked (entries.filter fun e => !isOwn fields e))).Nodup :=
    ((hperm.map Prod.fst).nodup_iff).mpr hnodup
  have hexact : takeExact (ownNames fields) entries = entries.filter (isOwn fields) := by
    refine takeExact_ownNames (t := []) ?_
    rw [Table.names, List.map_append] at hall
    exact (List.nodup_append.mp hall).1
  rw [h.exactKeys_eq, h.looseKeys_eq, hexact, addLoose_ownNames hspelled hall]
  exact hperm

end Restyle

end ShapedReply
