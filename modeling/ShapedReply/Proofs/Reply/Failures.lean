import ShapedReply.Proofs.Reading.WrittenValue
import ShapedReply.Proofs.Recovery.FixedPoints
import ShapedReply.Proofs.Schema.CheckFailure

/-!
# How a reply can fail

Reading a reply gives a value or one of three documented failures: nothing is found in the text, the
value does not fit the schema, or the fitted value disagrees with it. What is found can always be
read (`isStrict_of_recover?`), so the ways out of this list are a fit that fails without a misfit
and a check that fails without a report. **A reply fails as documented, unless the value that was
found holds a string that spells a whole number with more digits than the limit and the schema asks
for a whole number, or the schema comes upon a literal with more digits than can be written**
(`value_outcome`).

The exceptions are real: a reply that is nothing but so many digits leads to the first whenever a
whole number is asked for (`value_of_digits`), and a word leads to the second where such a literal
is asked for (`value_unwritable`). A whole number in the value is no third one, since what is read
can be written (`isWritableInteger_of_read`).
-/

namespace ShapedReply

open Text Outcome Reader Spelling

/-! ## Whole numbers that are read -/

/-- What holds everywhere in a value holds of what stands inside it. -/
theorem Value.Inside.of_everywhere {p : Value → Bool} {x v : Value} (h : x.Inside v)
    (hv : v.everywhere p = true) : p x = true := by
  induction h with
  | self => exact (everywhere_iff.mp hv).1
  | item hx _ ih => exact ih ((everywhere_iff.mp hv).2.1 _ hx)
  | field he _ ih => exact ih ((everywhere_iff.mp hv).2.2 _ he)

/-- **The whole numbers in what is read can be written.** -/
theorem isWritableInteger_of_read {t : Text} {v : Value} {n : Int} (h : Value.read t = .ok v)
    (hn : (Value.int n).Inside v) : isWritableInteger n = true :=
  hn.of_everywhere (isReadable_of_read h).1

/-! ## Documented failures -/

/-- Whether a failure is one of those that reading a value is documented to have. -/
def ReplyError.isDocumented : ReplyError → Bool
  | .nothingFound _ => true
  | .unfit reason => reason.isMisfit
  | .violated reason => reason.isViolation
  | .unreadable _ | .undecodable _ => false

namespace Reply

variable {settings : Settings} {resolve : Resolver} {t : Text} {s : Option Schema} {done : Bool}

/-- The failures of a reply that are not documented, and what is behind them. -/
inductive Escapes (settings : Settings) (resolve : Resolver) (t : Text) (s : Option Schema)
    (done : Bool) : ReplyError → Prop
  /-- A string with too many digits in what was found, where a whole number is asked for. -/
  | integerTooLong {digits : Nat} {raw : Value} {word : String} {x node : Schema}
      (found : rawValue settings resolve t s done = .ok raw) (inside : (Value.str word).Inside raw)
      (spelled : Fit.spelledDigits? word = some digits) (long : maxIntegerDigits < digits)
      (asked : s = some x) (meets : x.Meets resolve node) (asks : node.asksForInteger = true) :
      Escapes settings resolve t s done (.unfit (.integerTooLong digits))
  /-- A literal that cannot be written, in the name of what a value does not fit. -/
  | unfit {x node : Schema} (asked : s = some x) (meets : x.Meets resolve node)
      (unwritable : node.hasWritableLiteral = false) :
      Escapes settings resolve t s done (.unfit .integerUnwritable)
  /-- A literal that cannot be written, in the name of what a fitted value disagrees with. -/
  | violated {x node : Schema} (asked : s = some x) (checked : settings.validateOutput = true)
      (meets : x.Meets resolve node) (unwritable : node.hasWritableLiteral = false) :
      Escapes settings resolve t s done (.violated .integerUnwritable)

/-- A value is found in a text, or the failure is documented. -/
theorem isDocumented_of_rawValue {e : ReplyError}
    (h : rawValue settings resolve t s done = .error e) :
    e.isDocumented = true := by
  unfold rawValue at h
  split at h
  · cases h
  · unfold foundValue at h
    split at h
    · next found hfound =>
      have hstrict := isStrict_of_recover? hfound
      obtain ⟨d, hd, -⟩ := mapError_eq_error_iff.mp h
      rw [isStrict, hd] at hstrict
      cases hstrict
    · cases h
      rfl

/-- The whole numbers in the value that is found can be written. -/
theorem isWritableInteger_of_rawValue {raw : Value} {n : Int}
    (h : rawValue settings resolve t s done = .ok raw) (hn : (Value.int n).Inside raw) :
    isWritableInteger n = true := by
  unfold rawValue at h
  split at h
  · cases h
    unfold scalarValue at hn
    simp only at hn
    split at hn
    · next v hfirst =>
      obtain ⟨b, -, hread⟩ := firstReadable_eq_some hfirst
      exact isWritableInteger_of_read hread hn
    · -- The text itself is a string, which has no numbers in it.
      exact hn.of_everywhere (p := Value.hasShortDigits) rfl
  · unfold foundValue at h
    split at h
    · exact isWritableInteger_of_read (mapError_eq_ok_iff.mp h) hn
    · cases h

/-- A fitted value is returned, or its check fails, if it is checked. -/
theorem exists_of_check {fitted : Value} {x : Schema} {e : ReplyError}
    (h : (do
      if settings.validateOutput then (check resolve fitted x).mapError .violated
      return fitted : Except ReplyError Value) = .error e) :
    settings.validateOutput = true ∧
      ∃ reason, check resolve fitted x = .error reason ∧ e = .violated reason := by
  split at h
  · next hchecked =>
    rcases bind_eq_error_iff.mp h with h | ⟨u, -, h⟩
    · obtain ⟨reason, hreason, rfl⟩ := mapError_eq_error_iff.mp h
      exact ⟨hchecked, reason, hreason, rfl⟩
    · cases h
  · cases h

/-- **How a reply can fail.** With literals that a text can spell, a reply gives a value, or it
fails as documented, or it fails for one of two reasons: the value found in it holds a string that
spells a whole number with more digits than the limit and the schema asks for a whole number, or the
schema comes upon a literal of a whole number with more digits than can be written. -/
theorem value_outcome (hs : ∀ x ∈ s, x.HasSpelledLiterals)
    (hresolve : ∀ name d, resolve name = some d → d.toSchema.HasSpelledLiterals) :
    (∃ v, value settings resolve t s done = .ok v) ∨
      ∃ e, value settings resolve t s done = .error e ∧
        (e.isDocumented = true ∨ Escapes settings resolve t s done e) := by
  rcases hvalue : value settings resolve t s done with e | v
  · refine .inr ⟨e, rfl, ?_⟩
    unfold value at hvalue
    rcases bind_eq_error_iff.mp hvalue with hraw | ⟨raw, hraw, hrest⟩
    · exact .inl (isDocumented_of_rawValue hraw)
    · cases s with
      | none => cases hrest
      | some x =>
        rcases bind_eq_error_iff.mp hrest with hfit | ⟨fitted, -, hcheck⟩
        · obtain ⟨reason, hreason, rfl⟩ := mapError_eq_error_iff.mp hfit
          cases Fit.explains_of_fit raw x reason hreason with
          | misfit h => exact .inl h
          | integerTooLong inside meets asks spelled long =>
            exact .inr (.integerTooLong hraw inside spelled long rfl meets asks)
          | unwritableLiteral meets unwritable => exact .inr (.unfit rfl meets unwritable)
          | unwritableNumber inside _ _ unwritable =>
            rw [isWritableInteger_of_rawValue hraw inside] at unwritable
            cases unwritable
          | literalWithoutText meets unspelled =>
            have hspelled := meets.everywhere (fun name d _ hd => hresolve name d hd) (hs x rfl)
            rw [Schema.everywhere_self hspelled] at unspelled
            cases unspelled
        · obtain ⟨hchecked, reason, hreason, rfl⟩ := exists_of_check hcheck
          cases reason with
          | violation report => exact .inl rfl
          | integerUnwritable =>
            obtain ⟨node, hmeets, hunwritable⟩ := Check.meetsUnwritable_of_check fitted x hreason
            exact .inr (.violated rfl hchecked hmeets hunwritable)
  · exact .inl ⟨v, rfl⟩

/-- A reply that breaks off inside a node, with a number that is spelled as a string. -/
def brokenNode : Text := "so: \x7b\"id\": \"7\", \"next".toList

/-- A reply that breaks off inside a node that refers to itself. -/
theorem value_outcome_brokenNode :
    (∀ x ∈ some (Schema.ref "Node"), x.HasSpelledLiterals) ∧
    (∀ name d, nodeResolver name = some d → d.toSchema.HasSpelledLiterals) ∧
    ((∃ v, value {} nodeResolver brokenNode (some (.ref "Node")) false = .ok v) ∨
      ∃ e, value {} nodeResolver brokenNode (some (.ref "Node")) false = .error e ∧
        (e.isDocumented = true ∨
          Escapes {} nodeResolver brokenNode (some (.ref "Node")) false e)) :=
  have hs : ∀ x ∈ some (Schema.ref "Node"), x.HasSpelledLiterals := by
    rintro x ⟨⟩
    rfl
  have hresolve : ∀ name d, nodeResolver name = some d → d.toSchema.HasSpelledLiterals := by
    intro name d h
    unfold nodeResolver at h
    split at h
    · cases h
      rfl
    · cases h
  ⟨hs, hresolve, value_outcome hs hresolve⟩

/-! ## Too many digits -/

section digits

variable {ds : Text}

/-- A row of digits has no blanks around it. -/
theorem trim_digits (h : ∀ c ∈ ds, Text.isAsciiDigit c = true) : trim ds = ds := by
  have hblank : ∀ c ∈ Spelling.digits, isBlank c = false := by decide
  have hnil : ∀ c ∈ ([] : Text), isBlank c = true := by simp
  cases hstart : ds with
  | nil => rfl
  | cons c r =>
    obtain ⟨s, d, hend⟩ := (List.eq_nil_or_concat' ds).resolve_left (by simp [hstart])
    have hc := hblank c (Spelling.mem_digits (h c (by simp [hstart])))
    have hd := hblank d (Spelling.mem_digits (h d (by simp [hend])))
    simpa [hstart] using trim_append hnil hnil hstart hc hend hd

/-- A row of digits spells a whole number with that many digits. -/
theorem integer?_digits (h : ∀ c ∈ ds, Text.isAsciiDigit c = true) (hne : ds ≠ []) :
    Literal.integer? ds = some (false, ds) := by
  have hdecimal : ∀ c ∈ Spelling.digits, isDecimalDigit c = true := by decide
  have hsigns : ∀ c ∈ Spelling.digits, c ≠ '+' ∧ c ≠ '-' := by decide
  have hsign : Literal.takeSign ds = (false, ds) :=
    Reader.takeSign_of_head fun c hc => hsigns c (Spelling.mem_digits (h c (List.mem_of_head? hc)))
  have hall : ds.all isDecimalDigit = true :=
    List.all_eq_true.mpr fun c hc => hdecimal c (Spelling.mem_digits (h c hc))
  rw [Literal.integer?, hsign]
  simp [hall, hne]

/-- A number that starts with a zero ends behind it, unless a fraction or an exponent follows. -/
theorem numberAfter_zero {d : Char} (hpoint : d ≠ '.') (he : d ≠ 'e') (hE : d ≠ 'E') (r : Text) :
    Reader.numberAfter false ('0' :: d :: r) = .ok (.int 0, d :: r) := by
  have hfraction : Reader.takeFraction (d :: r) = ([], d :: r) := by
    unfold Reader.takeFraction
    split
    · next heq => exact absurd (List.cons.inj heq).1 hpoint
    · rfl
  have hexponent : Reader.takeExponent (d :: r) = (none, d :: r) := by
    simp [Reader.takeExponent, he, hE]
  rw [Reader.numberAfter]
  simp only [Reader.takeWhole, hfraction, hexponent]
  rfl

/-- A row of too many digits is no value text: it is a whole number with too many digits, or it goes
on behind a zero. -/
theorem read_digits (h : ∀ c ∈ ds, Text.isAsciiDigit c = true)
    (hlong : maxIntegerDigits < ds.length) :
    ∃ e, Value.read ds = .error e := by
  have hdigit : ∀ c ∈ Spelling.digits,
      isValueBlank c = false ∧ c ≠ '-' ∧ c ≠ '.' ∧ c ≠ 'e' ∧ c ≠ 'E' := by decide
  have hplain (c : Char) (hc : c ∈ ds) := hdigit c (Spelling.mem_digits (h c hc))
  cases ds with
  | nil => exact absurd hlong (by decide)
  | cons c r =>
    have hstart : skipValueBlanks (c :: r) = c :: r :=
      skipValueBlanks_cons (hplain c List.mem_cons_self).1 r
    have hnumber : Reader.value (Reader.budget (c :: r)) (c :: r) =
        Reader.numberAfter false (c :: r) := by
      rw [Reader.budget, value_of_startsNumber
        (startsNumber_of_isAsciiDigit (h c List.mem_cons_self) r)]
      exact Reader.number_of_head (by simpa using (hplain c List.mem_cons_self).2.1)
    rw [Value.read, hstart, hnumber]
    by_cases hzero : c = '0'
    · -- The number is the zero, and there is more behind it.
      obtain ⟨d, r, rfl⟩ : ∃ d s, r = d :: s := by
        apply List.exists_cons_of_ne_nil
        rintro rfl
        simp [maxIntegerDigits] at hlong
      obtain ⟨hblank, -, hpoint, he, hE⟩ := hplain d (by simp)
      refine ⟨.malformed, ?_⟩
      rw [hzero, numberAfter_zero hpoint he hE]
      simp only [bind, Except.bind, skipValueBlanks_cons hblank]
    · -- All of the text is one number.
      obtain ⟨hc, hr⟩ := List.forall_mem_cons.mp h
      have hwhole := Reader.takeWhole_row hc hzero hr (s := []) (by simp)
      rw [List.append_nil] at hwhole
      have hafter : Reader.numberAfter false (c :: r) =
          .error (.integerTooLong (c :: r).length) := by
        simp only [Reader.numberAfter, hwhole, Reader.takeFraction, Reader.takeExponent]
        exact (if_pos rfl).trans (if_pos hlong)
      refine ⟨.integerTooLong (c :: r).length, ?_⟩
      rw [hafter]
      rfl

/-- **A bare row of too many digits fails in no documented way where a whole number is asked
for.** -/
theorem value_of_digits (h : ∀ c ∈ ds, Text.isAsciiDigit c = true)
    (hlong : maxIntegerDigits < ds.length)
    (settings : Settings) (resolve : Resolver) (done : Bool) :
    value settings resolve ds (some .int) done = .error (.unfit (.integerTooLong ds.length)) := by
  have hfence : fencedBlocks ds = [] := by
    apply fencedBlocks_of_mark_not_mem
    exact fun hmark => absurd (h _ hmark) (by decide)
  obtain ⟨e, hread⟩ := read_digits h hlong
  have hscalar : scalarValue ds = .str (String.ofList ds) := by
    rw [scalarValue_of_bare ((trim_digits h).symm ▸ hread) hfence, trim_digits h]
  have hne : ds ≠ [] := by
    rintro rfl
    simp at hlong
  have hinteger : Fit.integerOfText (trim (String.ofList ds).toList) =
      .error (.integerTooLong ds.length) := by
    rw [String.toList_ofList, trim_digits h, Fit.integerOfText, integer?_digits h hne]
    exact if_pos hlong
  have hfit : fit resolve (.str (String.ofList ds)) .int = .error (.integerTooLong ds.length) := by
    rw [Fit.fit_eq, Fit.fitNode, map_eq_error_iff]
    exact bind_eq_error_iff.mpr (.inl hinteger)
  have hraw : rawValue settings resolve ds (some .int) done = .ok (.str (String.ofList ds)) := by
    rw [← hscalar, rawValue]
    exact if_pos rfl
  have hunfit : (fit resolve (.str (String.ofList ds)) .int).mapError ReplyError.unfit =
      .error (.unfit (.integerTooLong ds.length)) :=
    mapError_eq_error_iff.mpr ⟨_, hfit, rfl⟩
  unfold value
  exact bind_eq_error_iff.mpr (.inr ⟨_, hraw, bind_eq_error_iff.mpr (.inl hunfit)⟩)

/-- One digit too many. -/
theorem value_replicate_one :
    value {} (fun _ => none) (List.replicate 4301 '1') (some .int) true =
      .error (.unfit (.integerTooLong 4301)) ∧
    (ReplyError.unfit (.integerTooLong 4301)).isDocumented = false := by
  have hdigits : ∀ c ∈ List.replicate 4301 '1', Text.isAsciiDigit c = true := by
    intro c hc
    rw [List.eq_of_mem_replicate hc]
    rfl
  have hlong : maxIntegerDigits < (List.replicate 4301 '1').length := by
    rw [List.length_replicate]
    decide
  refine ⟨?_, rfl⟩
  rw [value_of_digits hdigits hlong, List.length_replicate]

end digits

/-! ## Literals with too many digits -/

/-- **A word fails in no documented way where a literal is asked for that cannot be written.** -/
theorem value_unwritable (settings : Settings) (resolve : Resolver) (done : Bool) :
    value settings resolve ['x'] (some (.literal .unwritable)) done =
      .error (.unfit .integerUnwritable) := by
  have hraw : rawValue settings resolve ['x'] (some (.literal .unwritable)) done =
      .ok (.str "x") := rfl
  have hfit : fit resolve (.str "x") (.literal .unwritable) = .error .integerUnwritable :=
    Fit.fit_unwritable fun _ => rfl
  have hunfit : (fit resolve (.str "x") (.literal .unwritable)).mapError ReplyError.unfit =
      .error (.unfit .integerUnwritable) :=
    mapError_eq_error_iff.mpr ⟨_, hfit, rfl⟩
  unfold value
  exact bind_eq_error_iff.mpr (.inr ⟨_, hraw, bind_eq_error_iff.mpr (.inl hunfit)⟩)

end Reply

end ShapedReply
