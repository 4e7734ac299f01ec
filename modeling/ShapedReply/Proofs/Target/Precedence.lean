import ShapedReply.Proofs.Target.Recasing

/-!
# Which key counts for a field

A map may give one field under several keys: under the key that the field is known by, under its
name, and in other styles. Renaming goes over the map twice. First come the keys that stand for a
field as they are, and of two of them the later one counts; then come the others, and they only take
what is still free.

* `get?_exactKeys`: a key stands for the first field that has it as its name or as its given key.
* `get?_takeExact`: **of the keys that stand for one field the last one counts.**
* `get?_addLoose`: what is there is not changed by keys in another style.
* `get?_restyle_knownAs`: so a field that is given under its own key gets the value there. There are
  two exceptions: the key is the name of an earlier field, or the name of the field comes behind it
  in the map (`restyle_later_name`).
-/

namespace ShapedReply.Restyle

open KeyStyle

variable {fields earlier later : List (FieldInfo × Target)} {f : FieldInfo × Target}

/-! ## Keys that stand for a field -/

/-- A field is spelled by its name and by its given key, if they are not empty. -/
theorem mem_spellings_iff {g : FieldInfo} {key : String} :
    key ∈ spellings g ↔ key ≠ "" ∧ (key = g.name ∨ g.givenAs = some key) := by
  rw [spellings, List.mem_filter, List.mem_cons, Option.mem_toList, bne_iff_ne, and_comm]

/-- A given key that is not empty is what the field is known by. -/
theorem knownAs_of_givenAs {g : FieldInfo} {key : String} (h : g.givenAs = some key)
    (hne : key ≠ "") :
    g.knownAs = key := by
  rw [FieldInfo.knownAs, FieldInfo.key, h, Option.getD_some, if_neg hne]

/-- Any other field is known by its name. -/
theorem knownAs_eq_or (g : FieldInfo) : g.knownAs = g.name ∨ g.givenAs = some g.knownAs := by
  rw [FieldInfo.knownAs, FieldInfo.key]
  rcases g.givenAs with _ | key
  · left
    rw [Option.getD_none, ite_self]
  · rw [Option.getD_some]
    by_cases hne : key = ""
    · left
      rw [if_pos hne]
    · right
      rw [if_neg hne]

/-- A spelling of a field is its name or the key that it is known by. -/
theorem eq_of_mem_spellings {g : FieldInfo} {key : String} (h : key ∈ spellings g) :
    key = g.name ∨ key = g.knownAs := by
  obtain ⟨hne, hname | hgiven⟩ := mem_spellings_iff.mp h
  · exact .inl hname
  · exact .inr (knownAs_of_givenAs hgiven hne).symm

/-- The key that a field is known by spells it. -/
theorem knownAs_mem_spellings {g : FieldInfo} (h : g.knownAs ≠ "") : g.knownAs ∈ spellings g :=
  mem_spellings_iff.mpr ⟨h, knownAs_eq_or g⟩

/-- What is there stays, and what is not there is put. -/
theorem get?_putNew {α : Type} (t : Table α) (name : String) (a : α) (other : String) :
    Table.get? (putNew t name a) other =
      (Table.get? t other).or (if other = name then some a else none) := by
  rw [putNew]
  by_cases hother : other = name
  · subst hother
    rw [Table.has, if_pos rfl]
    cases hget : Table.get? t other with
    | none => exact Table.get?_put_self t other a
    | some b => exact hget
  · rw [if_neg hother, Option.or_none]
    split
    · rfl
    · exact Table.get?_put_of_ne t hother a

/-- Spellings are taken unless they are taken already. -/
theorem get?_foldl_spellings (keys : List String) (a : String) (t : Table String) (key : String) :
    Table.get? (keys.foldl (fun t s => putNew t s a) t) key =
      (Table.get? t key).or (if key ∈ keys then some a else none) := by
  induction keys generalizing t with
  | nil => simp
  | cons s keys ih =>
    rw [List.foldl_cons, ih, get?_putNew, Option.or_assoc]
    congr 1
    by_cases hs : key = s <;> simp [hs]

/-- **A key stands for the first field that has it as its name or as its given key.** -/
theorem get?_exactKeys (fields : List (FieldInfo × Target)) (key : String) :
    Table.get? (exactKeys fields) key =
      (fields.find? fun f => decide (key ∈ spellings f.1)).map (·.1.knownAs) := by
  have hfold (t : Table String) : Table.get? (fields.foldl (fun t f =>
      (spellings f.1).foldl (fun t s => putNew t s f.1.knownAs) t) t) key =
        (Table.get? t key).or
          ((fields.find? fun f => decide (key ∈ spellings f.1)).map (·.1.knownAs)) := by
    induction fields generalizing t with
    | nil => simp
    | cons f fields ih =>
      rw [List.foldl_cons, ih, get?_foldl_spellings, Option.or_assoc]
      congr 1
      by_cases hkey : key ∈ spellings f.1 <;> simp [hkey]
  exact hfold []

/-- A key stands for a field when it is a spelling of it and of no earlier field. -/
def StandsFor (earlier : List (FieldInfo × Target)) (f : FieldInfo) (key : String) : Prop :=
  key ∈ spellings f ∧ ∀ g ∈ earlier, key ∉ spellings g.1

/-- A key counts for a field exactly if it stands for the field and for no earlier one. -/
theorem get?_exactKeys_eq_some_iff (h : ((earlier ++ f :: later).map (·.1.knownAs)).Nodup)
    {key : String} :
    Table.get? (exactKeys (earlier ++ f :: later)) key = some f.1.knownAs ↔
      StandsFor earlier f.1 key := by
  rw [List.map_append, List.map_cons, List.nodup_middle, List.nodup_cons, List.mem_append] at h
  obtain ⟨hother, -⟩ := h
  rw [get?_exactKeys, Option.map_eq_some_iff, StandsFor]
  constructor
  · rintro ⟨g, hfind, hg⟩
    rw [List.find?_append, Option.or_eq_some_iff] at hfind
    -- no other field is known by the same key, so it is `f` that was found
    rcases hfind with hearlier | ⟨hnone, hlater⟩
    · exact absurd (.inl (hg ▸ List.mem_map_of_mem (List.mem_of_find?_eq_some hearlier))) hother
    · rw [List.find?_eq_none] at hnone
      rw [List.find?_cons] at hlater
      split at hlater
      · next hkey => exact ⟨of_decide_eq_true hkey,
          fun g hg hkey => hnone g hg (decide_eq_true hkey)⟩
      · exact absurd (.inr (hg ▸ List.mem_map_of_mem (List.mem_of_find?_eq_some hlater))) hother
  · rintro ⟨hkey, hearlier⟩
    refine ⟨f, ?_, rfl⟩
    have hnone : earlier.find? (fun f => decide (key ∈ spellings f.1)) = none := by
      rw [List.find?_eq_none]
      exact fun g hg hkey => hearlier g hg (of_decide_eq_true hkey)
    rw [List.find?_append, hnone, Option.none_or]
    exact List.find?_cons_of_pos (decide_eq_true hkey)

/-! ## The two rounds -/

variable {exact loose : Table String} {entries : List (String × Waiting)} {t : Table Waiting}

/-- The first round for one entry. -/
def takeEntry (exact : Table String) (t : Table Waiting) (e : String × Waiting) : Table Waiting :=
  match Table.get? exact e.1 with
  | some key => Table.put t key e.2
  | none => t

/-- The second round for one entry. -/
def addEntry (exact loose : Table String) (t : Table Waiting) (e : String × Waiting) :
    Table Waiting :=
  if Table.has exact e.1 then t
  else match Table.get? loose (snakeKey e.1) with
    | some key => if Table.has t key then putNew t e.1 e.2 else Table.put t key e.2
    | none => putNew t e.1 e.2

/-- Exact keys are taken entry by entry. -/
theorem takeExact_eq_foldl (exact : Table String) (entries : List (String × Waiting)) :
    takeExact exact entries = entries.foldl (takeEntry exact) [] := rfl

/-- The other keys are added entry by entry. -/
theorem addLoose_eq_foldl (exact loose : Table String) (t : Table Waiting)
    (entries : List (String × Waiting)) :
    addLoose exact loose t entries = entries.foldl (addEntry exact loose) t := rfl

/-- An entry for another field changes nothing. -/
theorem get?_takeEntry_of_ne {e : String × Waiting} {key : String}
    (h : Table.get? exact e.1 ≠ some key)
    (t : Table Waiting) : Table.get? (takeEntry exact t e) key = Table.get? t key := by
  rw [takeEntry]
  split
  · next other hother =>
    refine Table.get?_put_of_ne t ?_ e.2
    rintro rfl
    exact h hother
  · rfl

/-- Entries with other keys leave what is found under a key. -/
theorem get?_foldl_takeEntry {key : String} (h : ∀ e ∈ entries, Table.get? exact e.1 ≠ some key)
    (t : Table Waiting) : Table.get? (entries.foldl (takeEntry exact) t) key =
      Table.get? t key := by
  induction entries generalizing t with
  | nil => rfl
  | cons e entries ih =>
    obtain ⟨hother, hlater⟩ := List.forall_mem_cons.mp h
    rw [List.foldl_cons, ih hlater, get?_takeEntry_of_ne hother]

/-- **Of the keys that stand for one field the last one counts.** -/
theorem get?_takeExact {before after : List (String × Waiting)} {e : String × Waiting}
    {key : String} (he : Table.get? exact e.1 = some key)
    (hafter : ∀ e' ∈ after, Table.get? exact e'.1 ≠ some key) :
    Table.get? (takeExact exact (before ++ e :: after)) key = some e.2 := by
  rw [takeExact_eq_foldl, List.foldl_append, List.foldl_cons, get?_foldl_takeEntry hafter,
    takeEntry, he]
  exact Table.get?_put_self _ key e.2

/-- The second round only adds. -/
theorem get?_addEntry (loose : Table String) {key : String} {w : Waiting}
    (h : Table.get? t key = some w) (e : String × Waiting) :
    Table.get? (addEntry exact loose t e) key = some w := by
  have hnew : Table.get? (putNew t e.1 e.2) key = some w := by
    rw [get?_putNew, h, Option.some_or]
  rw [addEntry]
  split
  · exact h
  · split
    · next other _ =>
      split
      · exact hnew
      · next hfree =>
        have hne : key ≠ other := by
          rintro rfl
          rw [Table.has, h] at hfree
          exact hfree rfl
        rw [Table.get?_put_of_ne t hne, h]
    · exact hnew

/-- **What is there is not changed by keys in another style.** -/
theorem get?_addLoose (loose : Table String) {key : String} {w : Waiting}
    (h : Table.get? t key = some w) (entries : List (String × Waiting)) :
    Table.get? (addLoose exact loose t entries) key = some w := by
  rw [addLoose_eq_foldl]
  induction entries generalizing t with
  | nil => exact h
  | cons e entries ih => exact ih (get?_addEntry loose h e)

/-! ## No key twice -/

/-- A new name is not there twice. -/
theorem nodup_names_putNew {α : Type} {t : Table α} (h : (Table.names t).Nodup) (name : String)
    (a : α) : (Table.names (putNew t name a)).Nodup := by
  rw [putNew]
  split
  · exact h
  · exact Table.nodup_names_put h name a

/-- Taking an entry keeps names distinct. -/
theorem nodup_names_takeEntry (h : (Table.names t).Nodup) (e : String × Waiting) :
    (Table.names (takeEntry exact t e)).Nodup := by
  rw [takeEntry]
  split
  · exact Table.nodup_names_put h _ e.2
  · exact h

/-- Adding an entry keeps names distinct. -/
theorem nodup_names_addEntry (h : (Table.names t).Nodup) (e : String × Waiting) :
    (Table.names (addEntry exact loose t e)).Nodup := by
  rw [addEntry]
  split
  · exact h
  · split
    · split
      · exact nodup_names_putNew h e.1 e.2
      · exact Table.nodup_names_put h _ e.2
    · exact nodup_names_putNew h e.1 e.2

/-- What one entry keeps, a round keeps. -/
theorem nodup_names_foldl {step : Table Waiting → String × Waiting → Table Waiting}
    (hstep : ∀ t e, (Table.names t).Nodup → (Table.names (step t e)).Nodup)
    (h : (Table.names t).Nodup) : (Table.names (entries.foldl step t)).Nodup := by
  induction entries generalizing t with
  | nil => exact h
  | cons e entries ih => exact ih (hstep t e h)

/-- A renamed map has no key twice. -/
theorem nodup_names_renamed (exact loose : Table String) (entries : List (String × Waiting)) :
    (Table.names (addLoose exact loose (takeExact exact entries) entries)).Nodup :=
  nodup_names_foldl (fun _ e ht => nodup_names_addEntry ht e)
    (nodup_names_foldl (fun _ e ht => nodup_names_takeEntry ht e) .nil)

/-! ## The key of a field -/

/-- A field's key is overruled in a map that has the field's name behind it, unless the name stands
for an earlier field. -/
def IsOverruled (earlier : List (FieldInfo × Target)) (f : FieldInfo) (es : Table Value) : Prop :=
  [f.knownAs, f.name].Sublist es.names ∧ ∀ g ∈ earlier, f.name ∉ spellings g.1

/-- The key that a field is known by stands for it, unless an earlier field has that name. -/
theorem standsFor_knownAs (h : ((earlier ++ f :: later).map (·.1.knownAs)).Nodup)
    (hname : f.1.name ≠ "") (hfree : ∀ g ∈ earlier, g.1.name ≠ f.1.knownAs) :
    StandsFor earlier f.1 f.1.knownAs := by
  have hne : f.1.knownAs ≠ "" := by
    rw [FieldInfo.knownAs]
    split
    · exact hname
    · next hkey => exact hkey
  refine ⟨knownAs_mem_spellings hne, fun g hg hkey => ?_⟩
  rcases eq_of_mem_spellings hkey with hother | hother
  · exact hfree g hg hother.symm
  · rw [List.map_append, List.map_cons, List.nodup_middle, List.nodup_cons] at h
    exact h.1 (hother ▸ List.mem_append_left _ (List.mem_map_of_mem hg))

/-! ## The last key that stands for a field -/

variable {es : Table Value}

/-- In a map without repetitions a key does not come again. -/
theorem ne_of_mem_behind {a b : Table Value} {e e' : String × Value}
    (h : (Table.names (a ++ e :: b)).Nodup) (he' : e' ∈ b) : e'.1 ≠ e.1 := by
  rw [Table.names, List.map_append, List.map_cons, List.nodup_append, List.nodup_cons] at h
  intro heq
  exact h.2.1.1 (heq ▸ List.mem_map_of_mem he')

/-- Behind a key that is overruled, the last key that stands for the field is its name. -/
theorem exists_last_of_isOverruled (hname : f.1.name ≠ "") (hes : es.names.Nodup)
    (hover : IsOverruled earlier f.1 es) :
    ∃ before v after, es = before ++ (f.1.name, v) :: after ∧ StandsFor earlier f.1 f.1.name ∧
      ∀ e ∈ after, ¬ StandsFor earlier f.1 e.1 := by
  obtain ⟨hbehind, hearlier⟩ := hover
  obtain ⟨l₁, l₂, hsplit, hfirst, hsecond⟩ := List.cons_sublist_iff.mp hbehind
  obtain ⟨c, d, rfl, rfl, rfl⟩ := List.map_eq_append_iff.mp hsplit
  obtain ⟨⟨k, v⟩, he, rfl⟩ := List.mem_map.mp (List.singleton_sublist.mp hsecond)
  obtain ⟨a, b, rfl⟩ := List.append_of_mem he
  refine ⟨c ++ a, v, b, (List.append_assoc c a _).symm,
    ⟨mem_spellings_iff.mpr ⟨hname, .inl rfl⟩, hearlier⟩, ?_⟩
  intro e heb hstands
  rcases eq_of_mem_spellings hstands.1 with heq | heq
  · rw [← List.append_assoc] at hes
    exact ne_of_mem_behind hes heb heq
  · have hlater := List.mem_append_right a (List.mem_cons_of_mem (f.1.name, v) heb)
    rw [Table.names, List.map_append, List.nodup_append] at hes
    exact hes.2.2 _ hfirst _ (List.mem_map_of_mem hlater) heq.symm

/-- Otherwise it is the key that the field is known by. -/
theorem exists_last_of_not_isOverruled (hes : es.names.Nodup) (hgiven : f.1.knownAs ∈ es.names)
    (hover : ¬ IsOverruled earlier f.1 es) :
    ∃ before v after, es = before ++ (f.1.knownAs, v) :: after ∧
      ∀ e ∈ after, ¬ StandsFor earlier f.1 e.1 := by
  obtain ⟨⟨k, v⟩, he, hk⟩ := List.mem_map.mp hgiven
  obtain rfl : f.1.knownAs = k := hk.symm
  obtain ⟨a, b, rfl⟩ := List.append_of_mem he
  refine ⟨a, v, b, rfl, ?_⟩
  intro e heb hstands
  rcases eq_of_mem_spellings hstands.1 with heq | heq
  · refine hover ⟨?_, heq ▸ hstands.2⟩
    rw [Table.names, List.map_append, List.map_cons, ← heq]
    exact ((List.singleton_sublist.mpr (List.mem_map_of_mem heb)).cons_cons _).trans
      (List.sublist_append_right _ _)
  · exact ne_of_mem_behind hes heb heq

/-! ## Restyling a map -/

/-- A map with renamed keys, each with its value restyled by the type of its field. -/
theorem restyle_map (info : ClassInfo) (options : ModelOptions) (fields : List (FieldInfo × Target))
    (es : Table Value) :
    restyle (.map es) (.model info options fields) =
      .map ((addLoose (exactKeys fields) (looseKeys fields)
        (takeExact (exactKeys fields) (es.map fun e => (e.1, restyledPart e.2)))
        (es.map fun e => (e.1, restyledPart e.2))).map fun e =>
          (e.1, restyledBy (.model info options fields) fields e)) := by
  rw [restyle_eq]
  rfl

/-- **The last key that stands for a field counts for it**, whatever other keys there are. -/
theorem get?_restyle_of_last (info : ClassInfo) (options : ModelOptions)
    (h : ((earlier ++ f :: later).map (·.1.knownAs)).Nodup) (before : Table Value) {k : String}
    (v : Value) {after : Table Value} (hk : StandsFor earlier f.1 k)
    (hafter : ∀ e ∈ after, ¬ StandsFor earlier f.1 e.1) :
    ∃ rs, restyle (.map (before ++ (k, v) :: after)) (.model info options (earlier ++ f :: later)) =
        .map rs ∧
      (Table.names rs).Nodup ∧ Table.get? rs f.1.knownAs =
        some (restyle v (Target.inside (.model info options (earlier ++ f :: later)) f.2)) := by
  refine ⟨_, restyle_map info options _ _, ?_, ?_⟩
  · rw [Table.names_map]
    exact nodup_names_renamed _ _ _
  · have hlast : ∀ e ∈ after.map fun e => (e.1, restyledPart e.2),
        Table.get? (exactKeys (earlier ++ f :: later)) e.1 ≠ some f.1.knownAs := by
      intro e he
      obtain ⟨e', he', rfl⟩ := List.mem_map.mp he
      exact mt (get?_exactKeys_eq_some_iff h).mp (hafter e' he')
    have htaken : Table.get? (takeExact (exactKeys (earlier ++ f :: later))
        ((before ++ (k, v) :: after).map fun e => (e.1, restyledPart e.2))) f.1.knownAs =
          some (restyledPart v) := by
      rw [List.map_append, List.map_cons]
      exact get?_takeExact ((get?_exactKeys_eq_some_iff h).mpr hk) hlast
    have hf : f ∈ earlier ++ f :: later := List.mem_append_right _ List.mem_cons_self
    rw [Table.get?_map, get?_addLoose _ htaken, Option.map_some, restyledBy, get?_types h hf]
    rfl

/-- **A field that is given under its own key gets the value there**, whatever other keys the map
has, unless the key is overruled: then it gets the value under its name. The key must not be the
name of an earlier field. -/
theorem get?_restyle_knownAs (info : ClassInfo) (options : ModelOptions)
    (h : ((earlier ++ f :: later).map (·.1.knownAs)).Nodup) (hname : f.1.name ≠ "")
    (hfree : ∀ g ∈ earlier, g.1.name ≠ f.1.knownAs) (hes : es.names.Nodup)
    (hgiven : f.1.knownAs ∈ es.names) :
    ∃ rs v, restyle (.map es) (.model info options (earlier ++ f :: later)) = .map rs ∧
      (Table.names rs).Nodup ∧
      Table.get? rs f.1.knownAs =
        some (restyle v (Target.inside (.model info options (earlier ++ f :: later)) f.2)) ∧
      (IsOverruled earlier f.1 es → es.get? f.1.name = some v) ∧
      (¬ IsOverruled earlier f.1 es → es.get? f.1.knownAs = some v) := by
  by_cases hover : IsOverruled earlier f.1 es
  · obtain ⟨before, v, after, rfl, hstands, hafter⟩ := exists_last_of_isOverruled hname hes hover
    obtain ⟨rs, hrs, hnodup, hget⟩ := get?_restyle_of_last info options h before v hstands hafter
    exact ⟨rs, v, hrs, hnodup, hget,
      fun _ => Table.get?_of_mem hes (List.mem_append_right before List.mem_cons_self),
      fun hnot => absurd hover hnot⟩
  · obtain ⟨before, v, after, rfl, hafter⟩ := exists_last_of_not_isOverruled hes hgiven hover
    obtain ⟨rs, hrs, hnodup, hget⟩ :=
      get?_restyle_of_last info options h before v (standsFor_knownAs h hname hfree) hafter
    exact ⟨rs, v, hrs, hnodup, hget, fun hyes => absurd hyes hover,
      fun _ => Table.get?_of_mem hes (List.mem_append_right before List.mem_cons_self)⟩

/-- A field with a guest in it, which is given as `mainGuest`. -/
def mainGuest : FieldInfo × Target := ({ name := "main_guest", givenAs := some "mainGuest" }, guest)

/-- A field with a number in it, which is given by its name. -/
def seats : FieldInfo × Target := ({ name := "seats" }, .integer)

/-- A map with three keys for the main guest, the one that the field is known by as the last. -/
def threeGuests : Table Value :=
  [("main_guest", .map [("firstName", .str "Bo")]), ("Main-Guest", .null), ("Seats", .int 2),
    ("mainGuest", .map [("firstName", .str "Ann")])]

/-- The guest under the field's own key comes in, with its own keys renamed. -/
theorem get?_restyle_knownAs_threeGuests :
    (([seats] ++ mainGuest :: []).map (·.1.knownAs)).Nodup ∧ mainGuest.1.name ≠ "" ∧
      (∀ g ∈ [seats], g.1.name ≠ mainGuest.1.knownAs) ∧ threeGuests.names.Nodup ∧
      mainGuest.1.knownAs ∈ threeGuests.names ∧
      ∃ rs, restyle (.map threeGuests)
          (.model { identity := "Row", name := "Row" } {} [seats, mainGuest]) = .map rs ∧
        Table.get? rs "mainGuest" = some (.map [("first_name", .str "Ann")]) := by
  have hkeys : (([seats] ++ mainGuest :: []).map (·.1.knownAs)).Nodup := by decide
  have hname : mainGuest.1.name ≠ "" := by decide
  have hfree : ∀ g ∈ [seats], g.1.name ≠ mainGuest.1.knownAs := by
    rw [List.forall_mem_singleton]
    decide
  have hnames : threeGuests.names.Nodup := by decide
  have hgiven : mainGuest.1.knownAs ∈ threeGuests.names := by decide
  have hbefore : ¬ IsOverruled [seats] mainGuest.1 threeGuests := by
    rintro ⟨hbehind, -⟩
    exact absurd hbehind (by decide)
  obtain ⟨rs, v, hrs, -, hget, -, hown⟩ :=
    get?_restyle_knownAs { identity := "Row", name := "Row" } {} hkeys hname hfree hnames hgiven
  obtain rfl : _ = v := Option.some.inj (hown hbefore)
  exact ⟨hkeys, hname, hfree, hnames, hgiven, rs, hrs, hget⟩

/-- A name behind the key of its field takes its place, and a key that is the name of an earlier
field goes to that. -/
theorem restyle_later_name :
    restyle (.map [("customerID", .int 7), ("customer_id", .int 8)])
        (.model { identity := "Order", name := "Order" } {}
          [({ name := "customer_id", givenAs := some "customerID" }, .integer)]) =
      .map [("customerID", .int 8)] ∧
    restyle (.map [("total", .int 3)])
        (.model { identity := "Bill", name := "Bill" } {}
          [({ name := "total", givenAs := some "sum" }, .integer),
            ({ name := "amount", givenAs := some "total" }, .integer)]) =
      .map [("sum", .int 3)] := by
  constructor <;> rfl

end ShapedReply.Restyle
