import ShapedReply.Proofs.Completion.Beginnings

/-!
# Faults that no closing bracket mends

A document that breaks off inside a key, a number or an escape stays unreadable when its brackets
are closed. The reader meets the fault in the innermost container and passes it on to the outside:
`Within.isStrict_eq_false` says that **a container with a fault makes the whole text unreadable**,
with any entries before it and any containers around it. The faults themselves come from beginnings
of tokens (see `Proofs/Completion/Tokens`).
-/

namespace ShapedReply

open Text Reader Spelling Mend

variable {k : Container}

/-! ## Where an entry starts -/

/-- `StartsEntry t`: behind some blanks the text starts with a character that is no closing
bracket. -/
def StartsEntry (t : Text) : Prop :=
  ∃ g c r, t = g ++ c :: r ∧ (∀ d ∈ g, isValueBlank d = true) ∧ isBlank c = false ∧ c ≠ ']' ∧
    c ≠ '}'

namespace StartsEntry

/-- What starts like a value starts an entry. -/
theorem of_mem {c : Char} (hc : c ∈ valueStarts) (r : Text) : StartsEntry (c :: r) :=
  ⟨[], c, r, rfl, by simp, valueStarts_ne c hc⟩

/-- Where an entry starts, nothing is closed next. -/
theorem closesNext_eq {t : Text} (h : StartsEntry t) : closesNext t = false := by
  obtain ⟨g, c, r, rfl, hg, hc, h₁, h₂⟩ := h
  rw [closesNext_append (forall_isBlank hg)]
  exact closesNext_cons_of_ne hc h₁ h₂ r

/-- Where an entry starts, the first character is no closing bracket. -/
theorem head_ne {t : Text} (h : StartsEntry t) :
    ∀ c ∈ (skipValueBlanks t).head?, c ≠ k.closer := by
  obtain ⟨g, c, r, rfl, hg, hc, h₁, h₂⟩ := h
  have hblank : isValueBlank c = false := by
    rcases hv : isValueBlank c with _ | _
    · rfl
    · rw [isBlank_of_isValueBlank hv] at hc
      cases hc
  rw [skipValueBlanks_append hg, skipValueBlanks_cons hblank]
  rintro d hd rfl
  cases hd
  cases k
  · exact h₁ rfl
  · exact h₂ rfl

/-- An entry may start behind blanks. -/
theorem gap (g : Gap) {t : Text} (h : StartsEntry t) : StartsEntry (g.strict ++ t) := by
  obtain ⟨g', c, r, rfl, hg', hc⟩ := h
  refine ⟨g.strict ++ g', c, r, by simp, ?_, hc⟩
  rw [List.forall_mem_append]
  exact ⟨g.blank, hg'⟩

/-- An entry may start with its key. -/
theorem head (head : Head k) {t : Text} (h : StartsEntry t) :
    StartsEntry (head.text .strict ++ t) := by
  cases head with
  | item before => exact h.gap before
  | member before key beforeColon afterColon =>
    simp only [Head.text, Pen.strict, List.append_assoc, List.cons_append]
    exact (of_mem (by decide) _).gap before

/-- An entry starts an entry. -/
theorem entry (e : Entry k) (t : Text) : StartsEntry (e.text ++ t) := by
  obtain ⟨c, r, hitem, hc⟩ := legible_strict.exists_cons e.item
  rw [Entry.text, hitem]
  simp only [List.append_assoc, List.cons_append]
  exact (of_mem hc _).head e.head

/-- An entry may start behind other entries. -/
theorem lead (before : List (Entry k)) {t : Text} (h : StartsEntry t) :
    StartsEntry (leadText before ++ t) := by
  cases before with
  | nil => exact h
  | cons e before =>
    simp only [leadText, List.flatMap_cons, List.append_assoc]
    exact entry e _

end StartsEntry

/-! ## From a fault to the whole text -/

/-- `Unreadable t`: with enough budget no value is read from the start of the text. -/
def Unreadable (t : Text) : Prop :=
  ∀ n, 2 * t.length ≤ n + 2 → ∃ e, value (n + 1) t = .error e

/-- `UnreadableEntries k t`: an entry starts, and with enough budget no entries are read. -/
structure UnreadableEntries (k : Container) (t : Text) : Prop where
  starts : StartsEntry t
  fails : ∀ n, 2 * t.length ≤ n → ∃ e, readEntries k n (skipValueBlanks t) = .error e

/-- A fault among the entries of a container is a fault of the container. -/
theorem UnreadableEntries.container {t : Text} (h : UnreadableEntries k t) :
    Unreadable (k.opener :: t) := by
  intro n hn
  rw [List.length_cons] at hn
  obtain ⟨e, he⟩ := h.fails n (by omega)
  exact ⟨e, by rw [value_filled k n h.starts.head_ne, he]; rfl⟩

/-- A fault in the value of an entry is a fault among the entries. -/
theorem Unreadable.entry (head : Head k) {c : Char} (hc : c ∈ valueStarts) {r : Text}
    (h : Unreadable (c :: r)) : UnreadableEntries k (head.text .strict ++ c :: r) where
  starts := (StartsEntry.of_mem hc r).head head
  fails n hn := by
    rw [List.length_append, List.length_cons] at hn
    obtain ⟨m, rfl⟩ : ∃ m, n = m + 2 := ⟨n - 2, by omega⟩
    obtain ⟨e, he⟩ := h m (by rw [List.length_cons]; omega)
    refine ⟨e, ?_⟩
    rw [readEntries_succ, readName_text legible_strict,
      skipValueBlanks_cons (ne_of_mem_valueStarts c hc).1]
    show (value (m + 1) (c :: r) >>= _) = _
    rw [he]
    rfl

/-- Entries before a fault do not mend it. -/
theorem UnreadableEntries.lead (before : List (Entry k)) {t : Text} (h : UnreadableEntries k t) :
    UnreadableEntries k (leadText before ++ t) := by
  induction before with
  | nil => exact h
  | cons e before ih =>
    have htext : leadText (e :: before) ++ t = e.head.text .strict ++ (e.item.text .strict ++
        (e.after.strict ++ ',' :: (leadText before ++ t))) := by
      simp [leadText, Entry.text]
    refine ⟨h.starts.lead (e :: before), fun n hn => ?_⟩
    rw [htext] at hn ⊢
    obtain ⟨c, r, hitem, -⟩ := legible_strict.exists_cons e.item
    have hlen : 1 ≤ (e.item.text .strict).length := by rw [hitem, List.length_cons]; omega
    simp only [List.length_append, List.length_cons] at hn
    obtain ⟨m, rfl⟩ : ∃ m, n = m + 2 := ⟨n - 2, by omega⟩
    have hstops : StopsNumber (',' :: (leadText before ++ t)) := stopsNumber_cons.mpr rfl
    have hvalue := value_text legible_strict e.item m (by omega)
      (stopsNumber_append e.after.blank hstops)
    obtain ⟨err, herr⟩ := ih.fails (m + 1) (by rw [List.length_append]; omega)
    refine ⟨err, ?_⟩
    rw [readEntries_entry legible_strict e.head hvalue, skipValueBlanks_append e.after.blank,
      skipValueBlanks_cons rfl, readBehind_comma, herr]
    rfl

variable {R T : Tree} {A : Text} {cs : List Char}

/-- **A container with a fault makes the text around it unreadable.** -/
theorem Spelling.Within.isStrict_eq_false (h : Within R A cs T) {t : Text}
    (ht : Unreadable (k.opener :: t)) : isStrict (A ++ k.opener :: t) = false := by
  have hopener : ∀ k : Container, k.opener ∈ valueStarts := by
    intro k
    cases k <;> decide
  induction h generalizing k t with
  | root =>
    rw [List.nil_append, isStrict, Value.read,
      skipValueBlanks_cons (ne_of_mem_valueStarts _ (hopener k)).1, budget]
    obtain ⟨e, he⟩ := ht (2 * (k.opener :: t).length + 1) (by omega)
    rw [he]
    rfl
  | @item A cs k' before es _ ih =>
    have houter := ((ht.entry es.first.head (hopener k)).lead before).container
    have := ih houter
    simpa using this

/-! ## Commas before a fault -/

/-- Dropping commas leaves the entries before another entry as they are. -/
theorem dropTrailingCommas_lead (before : List (Entry k)) {t : Text} (ht : StartsEntry t) :
    dropTrailingCommas (leadText before ++ t) = leadText before ++ dropTrailingCommas t := by
  have hcarries := carries_strict_commas
  induction before with
  | nil => rfl
  | cons e before ih =>
    have htext : ∀ s, leadText (e :: before) ++ s = e.head.text .strict ++ (e.item.text .strict ++
        (e.after.strict ++ ',' :: (leadText before ++ s))) := by
      intro s
      simp [leadText, Entry.text]
    have hgap : ∀ r, dropTrailingCommas (e.after.strict ++ r) =
        e.after.strict ++ dropTrailingCommas r := hcarries.gap e.after
    rw [htext, htext, hcarries.head, carries_text hcarries, hgap,
      hcarries.comma _ (ht.lead before).closesNext_eq, ih]

/-- Dropping commas leaves what stands before a value as it is. -/
theorem Spelling.Within.dropTrailingCommas_eq (h : Within R A cs T) {t : Text}
    (ht : StartsEntry t) :
    dropTrailingCommas (A ++ t) = A ++ dropTrailingCommas t := by
  have hcarries := carries_strict_commas
  induction h generalizing t with
  | root => rfl
  | @item A cs k before es _ ih =>
    have htext : ∀ s, A ++ k.opener :: (leadText before ++ es.first.head.text .strict) ++ s =
        A ++ k.opener :: (leadText before ++ (es.first.head.text .strict ++ s)) := by
      intro s
      simp
    have hopener : ∀ s, StartsEntry (k.opener :: s) := by
      intro s
      exact .of_mem (by cases k <;> decide) s
    rw [htext, htext, ih (hopener _), hcarries.opener, dropTrailingCommas_lead before (ht.head _),
      hcarries.head]

/-- Dropping commas leaves closing brackets as they are. -/
theorem Spelling.Within.dropTrailingCommas_closers (h : Within R A cs T) :
    dropTrailingCommas cs = cs := by
  induction h with
  | root => rfl
  | @item A cs k before es _ ih => rw [carries_strict_commas.closer, ih]

end ShapedReply
