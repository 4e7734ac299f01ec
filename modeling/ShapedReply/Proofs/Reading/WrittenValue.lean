import ShapedReply.Proofs.Completion.Truncation
import ShapedReply.Proofs.Reading.WrittenNumber
import ShapedReply.Proofs.Reading.WrittenString
import ShapedReply.Proofs.Schema.Conformance
import ShapedReply.Proofs.Spelling.Parsing

/-!
# Written values

A value is written with gaps that are blank and with tokens that the reader knows, so its text is
the strict text of a tree, whatever the indent. With that the reader need not be followed again.

* `exists_tree_written`: **the text of a value is the strict text of a tree with that value**, if
  the value has no floats, no whole numbers beyond the limit on digits, and no map with a key twice.
  The induction is on the value; the entries of arrays and maps are one case
  (`exists_entries_written`), as they are for the reader.
* `isReadable_value`: what the reader returns keeps the limit on digits and has no key twice.
* `read_toLines`: **so a value without floats is read back from its text**, with its keys in their
  order.

The texts of floats are left out here: that they read back is a property of the shortest decimal.
Strings are read back with halves of surrogate pairs in the place of the characters U+105800 to
U+105FFF, as `string_written` has it.
-/

namespace ShapedReply

open Text Reader Spelling Outcome

/-! ## Values that can be read -/

namespace Value

/-- Whether a value is a float. -/
def isFloat : Value → Bool
  | .float _ => true
  | _ => false

/-- No number inside a value is a float. -/
def HasNoFloats (v : Value) : Prop :=
  v.everywhere (fun x => !x.isFloat) = true

/-- Whether a whole number keeps the limit on digits. -/
def hasShortDigits : Value → Bool
  | .int n => isWritableInteger n
  | _ => true

/-- All whole numbers inside a value keep the limit on digits. -/
def HasShortIntegers (v : Value) : Prop :=
  v.everywhere hasShortDigits = true

end Value

/-! ## The layout of containers -/

namespace Writer

variable (style : WriteStyle) (level : Nat)

/-- What is written of an entry of a container: an item as it is, a member behind its key. -/
def entry (k : Container) (e : String × Value) : Text :=
  match k with
  | .array => value style level e.2
  | .map => string style e.1 ++ [':', ' '] ++ value style level e.2

/-- A separator starts with its comma. -/
theorem separator_eq : separator style level = ',' :: (separator style level).tail := by
  unfold separator
  split <;> rfl

/-- A line feed and the spaces behind it are blanks. -/
theorem blank_indent (n : Nat) : ∀ c ∈ '\n' :: List.replicate n ' ', isValueBlank c = true := by
  intro c hc
  rcases List.mem_cons.mp hc with rfl | hc
  · rfl
  · rw [List.eq_of_mem_replicate hc]
    rfl

/-- A line break with its indent is blank. -/
theorem blank_lineBreak : ∀ c ∈ lineBreak style level, isValueBlank c = true := by
  unfold lineBreak
  split
  · exact blank_indent _
  · exact blank_nil

/-- Behind its comma a separator is blank. -/
theorem blank_separator : ∀ c ∈ (separator style level).tail, isValueBlank c = true := by
  unfold separator
  split
  · exact blank_indent _
  · decide

/-- Items are written with a separator before each. -/
theorem items_eq (vs : List Value) :
    items style level vs = vs.flatMap fun v => separator style level ++ value style level v := by
  induction vs with
  | nil => rw [items, List.flatMap_nil]
  | cons v vs ih => rw [items, List.flatMap_cons, ih]

/-- Entries are written with a separator before each. -/
theorem entries_eq (es : List (String × Value)) :
    entries style level es = es.flatMap fun e =>
      separator style level ++ entry style level .map e := by
  induction es with
  | nil => rw [entries, List.flatMap_nil]
  | cons e es ih =>
    rw [entries, List.flatMap_cons, ih, entry]
    simp

/-- A container with entries, of either kind. -/
theorem value_holding (k : Container) (e : String × Value) (es : List (String × Value)) :
    value style level (k.holding (e :: es)) =
      k.opener :: (lineBreak style (level + 1) ++ (entry style (level + 1) k e ++
        (es.flatMap (fun e => separator style (level + 1) ++ entry style (level + 1) k e) ++
          (lineBreak style level ++ [k.closer])))) := by
  cases k with
  | array =>
    rw [Container.holding, List.map_cons, value, items_eq, List.flatMap_map]
    simp [entry, Container.opener, Container.closer]
  | map =>
    obtain ⟨key, v⟩ := e
    rw [Container.holding, value, entries_eq]
    simp [entry, Container.opener, Container.closer]

end Writer

/-! ## The tree of a written value -/

variable {style : WriteStyle} {level : Nat} {k : Container}

/-- A written string is the strict text of its glyphs. -/
theorem exists_quoted_written (hstyle : style.ascii = false) (s : String) :
    ∃ q : Quoted, '"' :: (q.strictBody ++ ['"']) = Writer.string style s ∧ q.meaning = s := by
  obtain ⟨gs, htext, hunits⟩ := exists_glyphs_written style s.toList
  refine ⟨.ofGlyphs gs, ?_, ?_⟩
  · rw [strictBody_ofGlyphs, ← htext]
    rfl
  · rw [meaning_ofGlyphs, hunits, joinUnits_written (by simp [hstyle]), String.ofList_toList]

/-- What is written before the value of an entry, behind blanks. -/
theorem exists_head_written (hstyle : style.ascii = false) {g : Text}
    (hg : ∀ c ∈ g, isValueBlank c = true) {e : String × Value} (hname : k = .array → e.1 = "") :
    ∃ head : Head k, head.name = e.1 ∧
      head.text .strict ++ Writer.value style level e.2 = g ++ Writer.entry style level k e := by
  cases k with
  | array => exact ⟨.item (.ofBlanks g hg), (hname rfl).symm, rfl⟩
  | map =>
    obtain ⟨q, htext, hmeaning⟩ := exists_quoted_written hstyle e.1
    have hspace : ∀ c ∈ [' '], isValueBlank c = true := by decide
    refine ⟨.member (.ofBlanks g hg) ⟨q, none, by simp⟩ (.ofBlanks [] blank_nil)
      (.ofBlanks [' '] hspace), ?_, ?_⟩
    · exact hmeaning
    · rw [Writer.entry, ← htext]
      simp [Head.text, Pen.strict, Gap.ofBlanks]

/-- Written entries are the strict text of entries, if the values in them are those of trees. -/
theorem exists_entries_written (hstyle : style.ascii = false) {g after : Text}
    (hg : ∀ c ∈ g, isValueBlank c = true) (hafter : ∀ c ∈ after, isValueBlank c = true)
    {e : String × Value} {es : List (String × Value)}
    (hname : k = .array → ∀ e' ∈ e :: es, e'.1 = "")
    (hvalues : ∀ e' ∈ e :: es, ∃ T : Tree, T.text .strict = Writer.value style level e'.2 ∧
      T.value = e'.2) :
    ∃ E : Entries k, E.pairs = e :: es ∧
      E.text .strict = g ++ (Writer.entry style level k e ++
        (es.flatMap (fun e => Writer.separator style level ++ Writer.entry style level k e) ++
          (after ++ [k.closer]))) := by
  induction es generalizing e g with
  | nil =>
    obtain ⟨T, htext, hvalue⟩ := hvalues e List.mem_cons_self
    obtain ⟨head, hheadname, hhead⟩ :=
      exists_head_written hstyle hg fun hk => hname hk e List.mem_cons_self
    refine ⟨.last head T (.ofBlanks after hafter) none, ?_, ?_⟩
    · rw [Entries.pairs, hheadname, hvalue]
    · rw [Entries.text, htext, hhead]
      simp [Pen.strict, Gap.ofBlanks]
  | cons e' es ih =>
    obtain ⟨T, htext, hvalue⟩ := hvalues e List.mem_cons_self
    obtain ⟨head, hheadname, hhead⟩ :=
      exists_head_written hstyle hg fun hk => hname hk e List.mem_cons_self
    obtain ⟨E, hpairs, hrest⟩ := ih (Writer.blank_separator style level)
      (fun hk e'' he => hname hk e'' (List.mem_cons_of_mem e he))
      (fun e'' he => hvalues e'' (List.mem_cons_of_mem e he))
    refine ⟨.more head T (.ofBlanks [] blank_nil) E, ?_, ?_⟩
    · rw [Entries.pairs, hheadname, hvalue, hpairs]
    · rw [Entries.text, htext, hhead, hrest, List.flatMap_cons, Writer.separator_eq]
      simp [Pen.strict, Gap.ofBlanks]

/-- A written container is the strict text of a tree, if the values in it are. -/
theorem exists_container_written (hstyle : style.ascii = false) {es : List (String × Value)}
    (hname : k = .array → ∀ e ∈ es, e.1 = "") (hnodup : k = .map → (Table.names es).Nodup)
    (hvalues : ∀ e ∈ es, ∃ T : Tree, T.text .strict = Writer.value style (level + 1) e.2 ∧
      T.value = e.2) :
    ∃ T : Tree, T.text .strict = Writer.value style level (k.holding es) ∧
      T.value = k.holding es := by
  cases es with
  | nil =>
    refine ⟨.empty k (.ofBlanks [] blank_nil), ?_, ?_⟩
    · cases k <;> rfl
    · rw [Tree.value, Container.value_eq_holding hnodup]
  | cons e es =>
    obtain ⟨E, hpairs, htext⟩ := exists_entries_written hstyle
      (Writer.blank_lineBreak style (level + 1))
      (Writer.blank_lineBreak style level) hname hvalues
    refine ⟨.filled k E, ?_, ?_⟩
    · rw [Tree.text, htext, Writer.value_holding]
    · rw [Tree.value, hpairs, Container.value_eq_holding hnodup]

/-- **The text of a value is the strict text of a tree with that value.** -/
theorem exists_tree_written (hstyle : style.ascii = false) (v : Value) :
    v.HasNoFloats → v.HasShortIntegers → v.HasDistinctKeys → ∀ level,
      ∃ T : Tree, T.text .strict = Writer.value style level v ∧ T.value = v := by
  induction v using Value.ind with
  | step v hitems hfields =>
  intro hfloats hshort hkeys level
  obtain ⟨hfloat, hfloatItems, hfloatFields⟩ := Value.everywhere_iff.mp hfloats
  obtain ⟨hdigits, hshortItems, hshortFields⟩ := Value.everywhere_iff.mp hshort
  obtain ⟨hnodup, hkeysItems, hkeysFields⟩ := Value.everywhere_iff.mp hkeys
  cases v with
  | null => exact ⟨.word .null, rfl, rfl⟩
  | bool b => cases b <;> exact ⟨.word (.bool _), rfl, rfl⟩
  | int n =>
    have hreads : number (Writer.integer n) = .ok (.int n, []) := by
      rw [number_integer, if_neg (Nat.not_lt.mpr (of_decide_eq_true hdigits))]
    exact ⟨.word (.number _ _ hreads), by rw [Writer.value]; rfl, rfl⟩
  | float x => cases hfloat
  | str s =>
    obtain ⟨q, htext, hmeaning⟩ := exists_quoted_written hstyle s
    refine ⟨.string q, ?_, ?_⟩
    · rw [Tree.text, Writer.value, ← htext]
      rfl
    · rw [Tree.value, hmeaning]
  | array xs =>
    have hholding : Container.array.holding (xs.map fun x => ("", x)) = .array xs := by
      simp [Container.holding, Function.comp_def]
    rw [← hholding]
    apply exists_container_written hstyle
    · intro _ e he
      obtain ⟨x, -, rfl⟩ := List.mem_map.mp he
      rfl
    · intro hk
      cases hk
    · intro e he
      obtain ⟨x, hx, rfl⟩ := List.mem_map.mp he
      exact hitems x hx (hfloatItems x hx) (hshortItems x hx) (hkeysItems x hx) (level + 1)
  | map es =>
    apply exists_container_written (k := .map) hstyle
    · intro hk
      cases hk
    · exact fun _ => of_decide_eq_true hnodup
    · intro e he
      exact hfields e he (hfloatFields e he) (hshortFields e he) (hkeysFields e he) (level + 1)

/-! ## What the reader returns -/

/-- A digit has a value below ten. -/
theorem digitValue?_getD_lt (c : Char) : (digitValue? c).getD 0 < 10 := by
  rw [digitValue?]
  rcases hzero : zeros.find? fun z => z ≤ c.toNat && c.toNat < z + 10 with _ | z
  · exact Nat.zero_lt_succ 9
  · have hz := List.find?_some hzero
    simp only [Bool.and_eq_true, decide_eq_true_eq] at hz
    rw [Option.map_some, Option.getD_some]
    omega

/-- A number has at most as many digits as it is spelled with. -/
theorem digitsValue_lt (ds : List Char) : digitsValue ds < 10 ^ ds.length := by
  induction ds using List.reverseRecOn with
  | nil => decide
  | append_singleton ds d ih =>
    have hstep : digitsValue (ds ++ [d]) = 10 * digitsValue ds + (digitValue? d).getD 0 := by
      rw [digitsValue, List.foldl_append]
      rfl
    have hd := digitValue?_getD_lt d
    rw [hstep, List.length_append, List.length_singleton, Nat.pow_succ]
    omega

/-- A number that is read is a float or keeps the limit on digits. -/
theorem number_eq_ok_cases {t r : Text} {v : Value} (h : number t = .ok (v, r)) :
    (∃ x, v = .float x) ∨ ∃ n, v = .int n ∧ Value.hasShortDigits (.int n) = true := by
  have hafter : ∀ {negative : Bool} {t : Text}, numberAfter negative t = .ok (v, r) →
      (∃ x, v = .float x) ∨ ∃ n, v = .int n ∧ Value.hasShortDigits (.int n) = true := by
    intro negative t h
    unfold numberAfter at h
    split at h
    · cases h
    · next whole r' hwhole =>
      simp only at h
      split at h
      · split at h
        · cases h
        · next hshort =>
          cases h
          refine .inr ⟨_, rfl, decide_eq_true ?_⟩
          have hpos : 0 < whole.length := List.length_pos_iff.mpr (takeWhole_eq_some hwhole).2.1
          have hdigits : (Nat.toDigits 10 (digitsValue whole)).length ≤ whole.length :=
            (Nat.length_toDigits_le_iff (by decide) hpos).mpr (digitsValue_lt whole)
          have habs : (Double.signed negative (digitsValue whole)).natAbs = digitsValue whole := by
            unfold Double.signed
            split <;> omega
          rw [habs]
          exact hdigits.trans (Nat.not_lt.mp hshort)
      · cases h
        exact .inl ⟨_, rfl⟩
  unfold number at h
  split at h
  · exact hafter h
  · exact hafter h

/-- All whole numbers inside a value keep the limit on digits, and no map inside it has a key
twice. -/
def Value.IsReadable (v : Value) : Prop :=
  v.HasShortIntegers ∧ v.HasDistinctKeys

/-- A container is readable if what it holds is. -/
theorem isReadable_container (k : Container) {es : List (String × Value)}
    (h : ∀ e ∈ es, e.2.IsReadable) : (k.value es).IsReadable := by
  cases k with
  | array =>
    have hitems : ∀ x ∈ es.map (·.2), x.IsReadable := by
      intro x hx
      obtain ⟨e, he, rfl⟩ := List.mem_map.mp hx
      exact h e he
    constructor
    · exact Value.everywhere_iff.mpr
        ⟨rfl, fun x hx => (hitems x hx).1, by simp [Container.value, Value.fields]⟩
    · exact Value.everywhere_iff.mpr
        ⟨rfl, fun x hx => (hitems x hx).2, by simp [Container.value, Value.fields]⟩
  | map =>
    have hfields : ∀ e ∈ Table.ofList es, e.2.IsReadable := by
      intro e he
      rcases Table.mem_update he with he | he
      · cases he
      · exact h e he
    have hnodup : (Table.names (Table.ofList es)).Nodup := Table.nodup_names_ofList es
    constructor
    · exact Value.everywhere_iff.mpr ⟨rfl, by simp [Container.value, Value.items],
        fun e he => (hfields e he).1⟩
    · exact Value.everywhere_iff.mpr
        ⟨decide_eq_true hnodup, by simp [Container.value, Value.items],
          fun e he => (hfields e he).2⟩

/-- What a word means is readable. -/
theorem isReadable_word (w : Word) : w.value.IsReadable := by
  cases w with
  | null => exact ⟨rfl, rfl⟩
  | bool b => exact ⟨rfl, rfl⟩
  | number t v reads =>
    rw [Word.value]
    rcases number_eq_ok_cases reads with ⟨x, rfl⟩ | ⟨n, rfl, hshort⟩
    · exact ⟨rfl, rfl⟩
    · exact ⟨Value.everywhere_iff.mpr ⟨hshort, List.forall_mem_nil _, List.forall_mem_nil _⟩, rfl⟩

mutual

/-- **The value of a tree keeps the limit on digits and has no key twice.** -/
theorem isReadable_value : (T : Tree) → T.value.IsReadable
  | .word w => isReadable_word w
  | .string _ => ⟨rfl, rfl⟩
  | .empty k _ => isReadable_container k (List.forall_mem_nil _)
  | .filled k es => isReadable_container k (isReadable_pairs es)

/-- What the entries of a container mean is readable. -/
theorem isReadable_pairs {k : Container} : (es : Entries k) → ∀ e ∈ es.pairs, e.2.IsReadable
  | .last head item _ _ => by
    rw [Entries.pairs, List.forall_mem_singleton]
    exact isReadable_value item
  | .more head item _ rest => by
    rw [Entries.pairs, List.forall_mem_cons]
    exact ⟨isReadable_value item, isReadable_pairs rest⟩

end

/-- What is read keeps the limit on digits and has no key twice. -/
theorem isReadable_of_read {t : Text} {v : Value} (h : Value.read t = .ok v) : v.IsReadable := by
  obtain ⟨d, rfl, -⟩ := exists_document_of_isStrict (t := t) (by rw [isStrict, h])
  rw [read_strict, Except.ok.injEq] at h
  rw [← h]
  exact isReadable_value d.root

/-! ## Reading what is written -/

/-- **A value without floats is read back from its text, at every indent.** Values that the reader
returned need no other condition. -/
theorem read_toLines (indent : Option Nat) :
    (∀ v : Value, v.HasNoFloats → v.HasShortIntegers → v.HasDistinctKeys →
      Value.read (v.toLines indent).toList = .ok v) ∧
    ∀ (t : Text) (v : Value), Value.read t = .ok v → v.HasNoFloats →
      Value.read (v.toLines indent).toList = .ok v := by
  have hwritten : ∀ v : Value, v.HasNoFloats → v.HasShortIntegers → v.HasDistinctKeys →
      Value.read (v.toLines indent).toList = .ok v := by
    intro v hfloats hshort hkeys
    have hstyle : ({ indent := indent } : WriteStyle).ascii = false := rfl
    obtain ⟨T, htext, hvalue⟩ := exists_tree_written hstyle v hfloats hshort hkeys 0
    rw [Value.toLines, String.toList_ofList, Value.write, ← htext, read_text_alone legible_strict,
      hvalue]
  refine ⟨hwritten, fun t v hread hfloats => ?_⟩
  obtain ⟨hshort, hkeys⟩ := isReadable_of_read hread
  exact hwritten v hfloats hshort hkeys

/-- A map with every kind of value but floats, and with every kind of escape, over several lines;
and a text whose layout is not that of the writer. -/
theorem read_toLines_note :
    let note : Value := .map [("né\"w", .str "a\\b\n\t\x08\x01/😀"), ("", .null),
      ("rows", .array [.int (-12), .int 0, .array [],
        .map [("on", .bool true), ("off", .bool false)]])]
    let loose : Text := "[ 1 ,\x7b \"a\":\"\\u00e9\", \"a\" : -0 \x7d ]".toList
    let read : Value := .array [.int 1, .map [("a", .int 0)]]
    note.HasNoFloats ∧ note.HasShortIntegers ∧ note.HasDistinctKeys ∧
      Value.read (note.toLines (some 2)).toList = .ok note ∧
      Value.read loose = .ok read ∧ read.HasNoFloats ∧
        Value.read (read.toLines none).toList = .ok read := by
  intro note loose read
  have hfloats : note.HasNoFloats := by cbv
  have hshort : note.HasShortIntegers := by cbv
  have hkeys : note.HasDistinctKeys := by cbv
  have hread : Value.read loose = .ok read := by decide +kernel
  have hfloats' : read.HasNoFloats := by cbv
  exact ⟨hfloats, hshort, hkeys, (read_toLines (some 2)).1 note hfloats hshort hkeys, hread,
    hfloats', (read_toLines none).2 loose read hread hfloats'⟩

end ShapedReply
