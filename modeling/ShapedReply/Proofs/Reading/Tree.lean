import ShapedReply.Proofs.Reading.Number
import ShapedReply.Proofs.Reading.Text
import ShapedReply.Proofs.Spelling.Edges

/-!
# Reading what a legible pen writes

The reader has one function for the items of an array and one for the members of a map. Here the two
are one function of the kind of container, `readEntries`, and what differs between them is in one
equation, `readEntries_succ`. With it the reader is followed along the text of a tree.

* `value_text`: **a tree written with a legible pen is read as its value**, with any text behind it
  that a number cannot go on into.
* `read_text`: so is a tree with blanks around it, by the reader of whole texts.

A pen is legible when it writes blanks between tokens and strings that spell their code units.
-/

namespace ShapedReply

open Text Reader Spelling Outcome

/-! ## Words -/

/-- Whether a number comes next: a digit, or a minus sign with a digit. -/
def startsNumber : Text → Bool
  | '-' :: c :: _ => Text.isAsciiDigit c
  | c :: _ => Text.isAsciiDigit c
  | [] => false

/-- A digit starts a number. -/
theorem startsNumber_of_isAsciiDigit {c : Char} (hc : Text.isAsciiDigit c = true) (t : Text) :
    startsNumber (c :: t) = true := by
  unfold startsNumber
  split
  · next heq =>
    cases heq
    exact absurd hc (by decide)
  · next heq =>
    cases heq
    exact hc
  · next heq => cases heq

/-- A number is read where one starts. -/
theorem value_of_startsNumber {t : Text} (h : startsNumber t = true) (n : Nat) :
    value (n + 1) t = number t := by
  rw [value.eq_def]
  simp only
  split
  case h_10 => rfl
  all_goals exact absurd h (by simp [startsNumber, Text.isAsciiDigit])

/-- A word is read as its value. -/
theorem value_word (w : Word) (n : Nat) {r : Text} (hr : StopsNumber r) :
    value (n + 1) (w.text ++ r) = .ok (w.value, r) := by
  cases w with
  | null => rfl
  | bool b => cases b <;> rfl
  | number t v reads =>
    obtain ⟨w, ht, -, hstart, hreads⟩ := number_eq_ok reads
    rw [List.append_nil] at ht
    subst ht
    rw [Word.text, value_of_startsNumber, hreads r hr, Word.value]
    rcases hstart with ⟨c, w', rfl, hc⟩ | ⟨c, w', rfl, hc⟩
    · exact startsNumber_of_isAsciiDigit hc _
    · exact hc

/-! ## Entries of either kind -/

/-- Reads the entries of a container after its opening bracket. The items of an array have empty
names. -/
def readEntries : Container → Nat → Text → Except ReadError (List (String × Value) × Text)
  | .array, n, t => (elements n t).map fun p => (p.1.map fun v => ("", v), p.2)
  | .map, n, t => members n t

/-- Reads the colon behind a key. -/
def readColon (key : String) : Text → Except ReadError (String × Text)
  | ':' :: r => .ok (key, skipValueBlanks r)
  | _ => .error .malformed

/-- Reads what stands before the value of an entry: nothing in an array, a key with its colon in a
map. -/
def readName : Container → Text → Except ReadError (String × Text)
  | .array, t => .ok ("", t)
  | .map, '"' :: t => Reader.string t >>= fun p => readColon p.1 (skipValueBlanks p.2)
  | .map, _ => .error .malformed

/-- Reads what stands behind an entry: the closing bracket, or a comma and more entries. -/
def readBehind (k : Container) (n : Nat) (entry : String × Value) :
    Text → Except ReadError (List (String × Value) × Text)
  | [] => .error .malformed
  | c :: r =>
    if c = k.closer then .ok ([entry], r)
    else if c = ',' then
      (readEntries k n (skipValueBlanks r)).map fun es => (entry :: es.1, es.2)
    else .error .malformed

/-- Behind a key stands a colon. -/
theorem readColon_other (key : String) {t : Text} (h : ∀ r, t ≠ ':' :: r) :
    readColon key t = .error .malformed := by
  unfold readColon
  split
  · next r => exact absurd rfl (h r)
  · rfl

/-- Behind an entry the closing bracket ends the container. -/
theorem readBehind_closer (k : Container) (n : Nat) (entry : String × Value) (r : Text) :
    readBehind k n entry (k.closer :: r) = .ok ([entry], r) :=
  if_pos rfl

/-- Behind an entry and a comma come further entries. -/
theorem readBehind_comma (k : Container) (n : Nat) (entry : String × Value) (r : Text) :
    readBehind k n entry (',' :: r) =
      (readEntries k n (skipValueBlanks r)).map fun es => (entry :: es.1, es.2) := by
  rw [readBehind, if_neg (by cases k <;> decide), if_pos rfl]

/-- Behind an entry stands nothing else. -/
theorem readBehind_other (k : Container) (n : Nat) (entry : String × Value) {t : Text}
    (hcloser : ∀ r, t ≠ k.closer :: r) (hcomma : ∀ r, t ≠ ',' :: r) :
    readBehind k n entry t = .error .malformed := by
  rcases t with _ | ⟨c, r⟩
  · rfl
  · rw [readBehind, if_neg, if_neg]
    · rintro rfl
      exact hcomma r rfl
    · rintro rfl
      exact hcloser r rfl

/-- **One entry and what comes behind it**, for arrays and maps alike. -/
theorem readEntries_succ (k : Container) (n : Nat) (t : Text) :
    readEntries k (n + 1) t = (readName k t >>= fun p => value n p.2 >>= fun q =>
      readBehind k n (p.1, q.1) (skipValueBlanks q.2)) := by
  cases k with
  | array =>
    simp only [readEntries, readName, elements, bind, Except.bind]
    rcases value n t with e | ⟨v, r⟩
    · rfl
    simp only
    split
    · next heq =>
      rw [heq]
      rfl
    · next r' heq =>
      rw [heq, readBehind_comma, readEntries]
      cases elements n (skipValueBlanks r') <;> rfl
    · next hcloser hcomma =>
      rw [readBehind_other _ _ _ hcloser hcomma]
      rfl
  | map =>
    by_cases ht : ∃ t', t = '"' :: t'
    · obtain ⟨t', rfl⟩ := ht
      rw [readEntries, members, readName]
      rcases Reader.string t' with e | ⟨key, r⟩
      · rfl
      simp only [bind, Except.bind]
      by_cases hcolon : ∃ r', skipValueBlanks r = ':' :: r'
      · obtain ⟨r', hr⟩ := hcolon
        simp only [hr, readColon]
        rcases value n (skipValueBlanks r') with e | ⟨v, s⟩
        · rfl
        simp only
        split
        · next heq =>
          rw [heq]
          rfl
        · next s' heq =>
          rw [heq, readBehind_comma, readEntries]
        · next hcloser hcomma =>
          rw [readBehind_other _ _ _ hcloser hcomma]
      · rw [readColon_other key fun r' h => hcolon ⟨r', h⟩]
        split
        · next r' heq => exact absurd ⟨r', heq⟩ hcolon
        · rfl
    · rw [readEntries, members, readName]
      · rfl
      · intro t' h
        exact ht ⟨t', h⟩
      · intro t' h
        exact ht ⟨t', h⟩

/-- A container whose closing bracket comes first is empty. -/
theorem value_empty (k : Container) (n : Nat) {t r : Text} (h : skipValueBlanks t = k.closer :: r) :
    value (n + 1) (k.opener :: t) = .ok (k.value [], r) := by
  cases k <;> simp only [Container.opener, Container.closer, value] at h ⊢ <;> rw [h] <;> rfl

/-- A container whose closing bracket does not come first has entries. -/
theorem value_filled (k : Container) (n : Nat) {t : Text}
    (h : ∀ c ∈ (skipValueBlanks t).head?, c ≠ k.closer) :
    value (n + 1) (k.opener :: t) =
      (readEntries k n (skipValueBlanks t)).map fun p => (k.value p.1, p.2) := by
  cases k with
  | array =>
    simp only [Container.opener, value]
    split
    · next heq =>
      rw [heq] at h
      exact absurd rfl (h _ rfl)
    · rw [readEntries]
      rcases elements n (skipValueBlanks t) with e | ⟨vs, r⟩
      · rfl
      · simp [Except.map, Container.value, Function.comp_def]
  | map =>
    simp only [Container.opener, value]
    split
    · next heq =>
      rw [heq] at h
      exact absurd rfl (h _ rfl)
    · rfl

/-! ## Legible pens -/

/-- `SpellsString w s`: the text `w` is a literal in double quotes that reads as the string `s`. -/
def SpellsString (w : Text) (s : Quoted) : Prop :=
  ∃ body, w = '"' :: body ∧ ∀ r, Reader.string (body ++ r) = .ok (s.meaning, r)

/-- A literal whose glyphs spell the code units of a string reads as that string. -/
theorem spellsString_of_units {s : Quoted} {body : Text}
    (h : ∀ r, units (body ++ '"' :: r) = .ok (s.codeUnits, r)) :
    SpellsString ('"' :: (body ++ ['"'])) s := by
  refine ⟨_, rfl, fun r => ?_⟩
  rw [Reader.string, List.append_assoc, List.singleton_append, h]
  rfl

end ShapedReply

namespace ShapedReply.Spelling

/-- A pen whose texts the reader can read: blanks between tokens, and literals that read as the
strings they stand for. -/
structure Pen.Legible (pen : Pen) : Prop where
  gap : ∀ g, ∀ c ∈ pen.gap g, Text.isValueBlank c = true
  trailing : ∀ ps, ∀ c ∈ pen.trailing ps, Text.isValueBlank c = true
  key : ∀ k, SpellsString (pen.key k) k.quoted
  string : ∀ s, SpellsString (pen.string s) s

end ShapedReply.Spelling

namespace ShapedReply

open Text Reader Spelling Outcome

/-- The pen of strict text is legible. -/
theorem legible_strict : Pen.strict.Legible where
  gap g := g.blank
  trailing _ _ h := by cases h
  key k := spellsString_of_units fun r => units_flatMap (fun g _ => spellsUnit_strict g.1) r
  string s := spellsString_of_units fun r => units_flatMap (fun g _ => spellsUnit_strict g.1) r

variable {pen : Pen}

/-- A tree of a legible pen starts with what a value can start with. -/
theorem Spelling.Pen.Legible.exists_cons (hpen : pen.Legible) (T : Tree) :
    ∃ c r, T.text pen = c :: r ∧ c ∈ valueStarts := by
  apply exists_text_eq_cons
  intro s
  obtain ⟨body, hs, -⟩ := hpen.string s
  exact ⟨'"', body, hs, by decide⟩

/-- A value starts with no blank and with no bracket that closes. -/
theorem ne_of_mem_valueStarts : ∀ c ∈ valueStarts, isValueBlank c = false ∧ c ≠ ']' ∧ c ≠ '}' := by
  decide

/-- Blanks do not go on with a number. -/
theorem stopsNumber_append {g r : Text} (hg : ∀ c ∈ g, isValueBlank c = true)
    (hr : StopsNumber r) : StopsNumber (g ++ r) := by
  rcases g with _ | ⟨c, g⟩
  · exact hr
  · rw [List.cons_append, stopsNumber_cons]
    rcases eq_of_isValueBlank (hg c List.mem_cons_self) with rfl | rfl | rfl | rfl <;> rfl

/-- What stands before the value of an entry is read as its name. -/
theorem readName_text (hpen : pen.Legible) {k : Container} (head : Head k) (t : Text) :
    readName k (skipValueBlanks (head.text pen ++ t)) = .ok (head.name, skipValueBlanks t) := by
  cases head with
  | item before =>
    rw [Head.text, skipValueBlanks_append (hpen.gap before)]
    rfl
  | member before key beforeColon afterColon =>
    obtain ⟨body, hkey, hbody⟩ := hpen.key key
    have htext : Head.text pen (.member before key beforeColon afterColon) ++ t =
        pen.gap before ++
          '"' :: (body ++ (pen.gap beforeColon ++ ':' :: (pen.gap afterColon ++ t))) := by
      rw [Head.text, hkey]
      simp
    rw [htext, skipValueBlanks_append (hpen.gap before), skipValueBlanks_cons rfl, readName, hbody]
    show readColon key.quoted.meaning (skipValueBlanks (pen.gap beforeColon ++ _)) = _
    rw [skipValueBlanks_append (hpen.gap beforeColon), skipValueBlanks_cons rfl, readColon,
      skipValueBlanks_append (hpen.gap afterColon)]
    rfl

/-- A container of a legible pen does not start with its closing bracket. -/
theorem head_entries_ne (hpen : pen.Legible) {k : Container} (es : Entries k) (r : Text) :
    ∀ c ∈ (skipValueBlanks (es.text pen ++ r)).head?, c ≠ k.closer := by
  have hhead : ∀ (head : Head k) (item : Tree) (t : Text),
      ∀ c ∈ (skipValueBlanks (head.text pen ++ (item.text pen ++ t))).head?, c ≠ k.closer := by
    intro head item t c hc
    cases head with
    | item before =>
      obtain ⟨d, s, hitem, hd⟩ := hpen.exists_cons item
      obtain ⟨hblank, hne, -⟩ := ne_of_mem_valueStarts d hd
      rw [Head.text, skipValueBlanks_append (hpen.gap before), hitem, List.cons_append,
        skipValueBlanks_cons hblank] at hc
      cases hc
      exact hne
    | member before key beforeColon afterColon =>
      obtain ⟨body, hkey, -⟩ := hpen.key key
      rw [Head.text, hkey] at hc
      simp only [List.append_assoc, List.cons_append] at hc
      rw [skipValueBlanks_append (hpen.gap before), skipValueBlanks_cons rfl] at hc
      cases hc
      decide
  cases es with
  | last head item after trailing =>
    simp only [Entries.text, List.append_assoc]
    exact hhead head item _
  | more head item after rest =>
    simp only [Entries.text, List.append_assoc]
    exact hhead head item _

/-- A closing bracket does not go on with a number and is no blank. -/
theorem closer_stops (k : Container) (r : Text) :
    StopsNumber (k.closer :: r) ∧ skipValueBlanks (k.closer :: r) = k.closer :: r := by
  rw [stopsNumber_cons]
  cases k <;> exact ⟨rfl, rfl⟩

/-- One entry is read as far as its value, and then what stands behind it. -/
theorem readEntries_entry (hpen : pen.Legible) {k : Container} (head : Head k) {item : Tree}
    {n : Nat} {t : Text} (hitem : value n (item.text pen ++ t) = .ok (item.value, t)) :
    readEntries k (n + 1) (skipValueBlanks (head.text pen ++ (item.text pen ++ t))) =
      readBehind k n (head.name, item.value) (skipValueBlanks t) := by
  obtain ⟨c, r, htext, hc⟩ := hpen.exists_cons item
  have hskip : skipValueBlanks (item.text pen ++ t) = item.text pen ++ t := by
    rw [htext, List.cons_append, skipValueBlanks_cons (ne_of_mem_valueStarts c hc).1]
  rw [readEntries_succ, readName_text hpen]
  show (value n (skipValueBlanks (item.text pen ++ t)) >>= _) = _
  rw [hskip, hitem]
  rfl

mutual

/-- **A tree that is written with a legible pen is read as its value**, and the reader stops behind
it. -/
theorem value_text (hpen : pen.Legible) :
    (T : Tree) → ∀ (n : Nat) {r : Text}, 2 * (T.text pen).length ≤ n + 2 → StopsNumber r →
      value (n + 1) (T.text pen ++ r) = .ok (T.value, r)
  | .word w, n, r, hn, hr => by
    rw [Tree.text, Tree.value]
    exact value_word w n hr
  | .string s, n, r, hn, hr => by
    obtain ⟨body, hs, hbody⟩ := hpen.string s
    rw [Tree.text, Tree.value, hs, List.cons_append, value, hbody]
    rfl
  | .empty k inside, n, r, hn, hr => by
    rw [Tree.text, Tree.value, List.cons_append]
    apply value_empty
    rw [List.append_assoc, skipValueBlanks_append (hpen.gap inside)]
    cases k <;> rfl
  | .filled k es, n, r, hn, hr => by
    rw [Tree.text, List.length_cons] at hn
    rw [Tree.text, Tree.value, List.cons_append, value_filled k n (head_entries_ne hpen es r),
      readEntries_text hpen es n r (by omega)]
    rfl

/-- The entries of a container that are written with a legible pen are read as they are. -/
theorem readEntries_text (hpen : pen.Legible) {k : Container} :
    (es : Entries k) → ∀ (n : Nat) (r : Text), 2 * (es.text pen).length ≤ n →
      readEntries k n (skipValueBlanks (es.text pen ++ r)) = .ok (es.pairs, r)
  | .last head item after trailing, n, r, hn => by
    simp only [Entries.text, List.length_append, List.length_singleton] at hn
    obtain ⟨m, rfl⟩ : ∃ m, n = m + 2 := ⟨n - 2, by omega⟩
    have hblank : ∀ c ∈ pen.gap after ++ pen.trailing trailing, isValueBlank c = true :=
      List.forall_mem_append.mpr ⟨hpen.gap after, hpen.trailing trailing⟩
    obtain ⟨hstops, hskip⟩ := closer_stops k r
    have htext : Entries.text pen (.last head item after trailing) ++ r = head.text pen ++
        (item.text pen ++ ((pen.gap after ++ pen.trailing trailing) ++ k.closer :: r)) := by
      simp [Entries.text]
    have hitem := value_text hpen item m (by omega) (stopsNumber_append hblank hstops)
    rw [htext, readEntries_entry hpen head hitem, skipValueBlanks_append hblank, hskip,
      readBehind_closer, Entries.pairs]
  | .more head item after rest, n, r, hn => by
    simp only [Entries.text, List.length_append, List.length_cons] at hn
    obtain ⟨m, rfl⟩ : ∃ m, n = m + 2 := ⟨n - 2, by omega⟩
    have htext : Entries.text pen (.more head item after rest) ++ r = head.text pen ++
        (item.text pen ++ (pen.gap after ++ ',' :: (rest.text pen ++ r))) := by
      simp [Entries.text]
    have hstops : StopsNumber (',' :: (rest.text pen ++ r)) := stopsNumber_cons.mpr rfl
    have hitem := value_text hpen item m (by omega) (stopsNumber_append (hpen.gap after) hstops)
    rw [htext, readEntries_entry hpen head hitem, skipValueBlanks_append (hpen.gap after),
      skipValueBlanks_cons rfl, readBehind_comma, readEntries_text hpen rest (m + 1) r (by omega),
      Entries.pairs]
    rfl

end

/-- **A tree that is written with a legible pen, with blanks around it, reads as its value.** -/
theorem read_text (hpen : pen.Legible) (T : Tree) {before after : Text}
    (hbefore : ∀ c ∈ before, isValueBlank c = true) (hafter : ∀ c ∈ after, isValueBlank c = true) :
    Value.read (before ++ T.text pen ++ after) = .ok T.value := by
  obtain ⟨c, r, htext, hc⟩ := hpen.exists_cons T
  have hskip : skipValueBlanks (before ++ T.text pen ++ after) = T.text pen ++ after := by
    rw [List.append_assoc, skipValueBlanks_append hbefore, htext, List.cons_append,
      skipValueBlanks_cons (ne_of_mem_valueStarts c hc).1]
  have hstops : StopsNumber after := by
    have := stopsNumber_append hafter stopsNumber_nil
    rwa [List.append_nil] at this
  have hend : skipValueBlanks after = [] := by
    have := skipValueBlanks_append hafter []
    rwa [List.append_nil] at this
  have hbudget : 2 * (T.text pen).length ≤ budget (before ++ T.text pen ++ after) := by
    simp only [budget, List.length_append]
    omega
  rw [Value.read, hskip, budget, value_text hpen T _ (by rw [budget] at hbudget; omega) hstops]
  simp only [bind, Except.bind, hend]

/-- A tree on its own reads as its value. -/
theorem read_text_alone (hpen : pen.Legible) (T : Tree) :
    Value.read (T.text pen) = .ok T.value := by
  have := read_text hpen T blank_nil blank_nil
  rwa [List.nil_append, List.append_nil] at this

end ShapedReply
