import ShapedReply.Proofs.Loose.Fragments
import ShapedReply.Proofs.Outcome
import ShapedReply.Proofs.Reading.WrittenNumber
import ShapedReply.Proofs.Schema.Acceptance
import ShapedReply.Proofs.Schema.Walk
import ShapedReply.Proofs.Spelling.Parsing
import ShapedReply.Proofs.Text.Trim
import ShapedReply.Prompt.Instruction
import ShapedReply.Reply

/-!
# Categories that are read back

An instruction lists the values of an enum as categories, and a reply may give one of them bare. The
bare reply takes a detour before it is looked up: it is read as value text, then its fenced blocks
are, and the scalar that comes of this is written out again (`scalarText?`). A category comes back
when the detour leads back to it.

* `ReadsAsItself`: the texts that the detour leaves alone. They are the words that are neither value
  text nor fenced, the truth values, the whole numbers and the doubles in the spelling that the
  library itself has for them.
* `scalarText?_eq_self_iff`: these are all of them. A string is shorter than its text
  (`length_lt_of_read_str`), a fenced block is shorter than the text around it, and no number has a
  fence.
* `read_category_iff`: a listed category is read back exactly when it is such a text, or when what
  it is read as is no category and leads to it as an alias or in another case.
* `read_unlike_category`: so there are categories that are not read back.
-/

namespace ShapedReply

open Text Outcome Reader Spelling

/-! ## Strings are shorter than their texts -/

/-- Code units spell at most one character each. -/
theorem length_joinUnits_le (us : List Nat) : (joinUnits us).length ≤ us.length := by
  fun_induction joinUnits us with
  | case1 => exact Nat.le_refl 0
  | case2 u => exact Nat.le_refl 1
  | case3 high low us hpair ih =>
    simp only [List.length_cons]
    omega
  | case4 high low us hpair ih =>
    simp only [List.length_cons] at ih ⊢
    omega

/-- Each code unit of a string takes at least one character of its text. -/
theorem Spelling.Quoted.length_meaning_le (s : Quoted) :
    s.meaning.toList.length ≤ s.strictBody.length := by
  have hglyph : ∀ g : Glyph, 1 ≤ g.strict.length := by
    intro g
    cases g <;> simp [Glyph.strict]
  have hbody : s.glyphs.length ≤ s.strictBody.length := by
    unfold Quoted.strictBody
    induction s.glyphs with
    | nil => exact Nat.le_refl 0
    | cons g gs ih =>
      rw [List.flatMap_cons, List.length_append, List.length_cons]
      have := hglyph g.1
      omega
  calc s.meaning.toList.length
      = (joinUnits s.codeUnits).length := by rw [Quoted.meaning, String.toList_ofList]
    _ ≤ s.codeUnits.length := length_joinUnits_le _
    _ = s.glyphs.length := List.length_map _
    _ ≤ s.strictBody.length := hbody

/-- A number is no string. -/
theorem number_ne_str {t r : Text} {s : String} : number t ≠ .ok (.str s, r) := by
  have hafter : ∀ negative u, numberAfter negative u ≠ .ok (.str s, r) := by
    intro negative u h
    unfold numberAfter at h
    split at h
    · cases h
    · simp only at h
      split at h
      · split at h
        · cases h
        · cases h
      · cases h
  unfold number
  split
  · exact hafter _ _
  · exact hafter _ _

/-- **A text that reads as a string is longer than the string.** -/
theorem length_lt_of_read_str {t : Text} {s : String} (h : Value.read t = .ok (.str s)) :
    s.toList.length < t.length := by
  obtain ⟨d, rfl, -⟩ := exists_document_of_isStrict (t := t) (by rw [isStrict, h])
  rw [read_strict] at h
  have hvalue : d.root.value = .str s := Except.ok.inj h
  have hroot : s.toList.length < (d.root.text .strict).length := by
    cases hr : d.root with
    | word w =>
      rw [hr, Tree.value] at hvalue
      cases w with
      | null => cases hvalue
      | bool b => cases hvalue
      | number text value reads =>
        cases hvalue
        exact absurd reads number_ne_str
    | string q =>
      rw [hr, Tree.value] at hvalue
      cases hvalue
      have := q.length_meaning_le
      rw [Tree.text, Pen.strict]
      simp only [List.length_cons, List.length_append]
      omega
    | empty k inside =>
      rw [hr, Tree.value] at hvalue
      cases k <;> cases hvalue
    | filled k es =>
      rw [hr, Tree.value] at hvalue
      cases k <;> cases hvalue
  rw [Document.strict]
  simp only [List.length_append]
  omega

/-! ## What the detour can change -/

/-- A fenced block is shorter than the text around it, and there are fences in this text. -/
theorem length_lt_of_mem_fencedBlocks {t b : Text} (h : b ∈ fencedBlocks t) :
    b.length < t.length ∧ '\x60' ∈ t := by
  obtain ⟨w, body, rfl, hin⟩ := mem_fencedBlocks h
  obtain ⟨g, g', hbody, -, -⟩ := exists_trim_append body
  have htrim : (trim body).length ≤ body.length := by
    conv_rhs => rw [hbody]
    simp only [List.length_append]
    omega
  have hlength := hin.length_le
  simp only [List.length_append, Fence.mark, List.length_cons, List.length_nil] at hlength
  exact ⟨by omega, hin.mem (List.mem_append_left _ (by decide : '\x60' ∈ Fence.mark))⟩

/-- No double is written with a fence. -/
theorem mark_not_mem_displayNumbers (x : Double) : '\x60' ∉ Value.displayNumbers.write x := by
  have hsign : ∀ negative : Bool, '\x60' ∉ if negative then ['-'] else [] := by decide
  cases x with
  | finite negative m q =>
    intro h
    rcases List.mem_append.mp h with h | h
    · exact hsign negative h
    · exact absurd (isNumberPart_of_mem_magnitude _ _ _ h) (by decide)
  | infinite negative =>
    intro h
    rcases List.mem_append.mp h with h | h
    · exact hsign negative h
    · exact absurd h (by decide)

/-- The text of a whole number is its decimal text. -/
theorem Fit.eq_of_textOf_int {n : Int} {w : String} (h : Fit.textOf (.int n) = .ok (some w)) :
    w = String.ofList (Writer.integer n) := by
  rw [textOf] at h
  split at h
  · exact (Option.some.inj (Except.ok.inj h)).symm
  · cases h

/-- **What a text is read as is shorter than the text, or has no fence in it.** -/
theorem length_lt_or_mark_not_mem {t : Text} {v : Value} {w : String} (hread : Value.read t = .ok v)
    (hw : Fit.textOf v = .ok (some w)) : w.toList.length < t.length ∨ '\x60' ∉ w.toList := by
  cases v with
  | str s =>
    cases hw
    exact .inl (length_lt_of_read_str hread)
  | bool b =>
    cases hw
    cases b <;> exact .inr (by decide)
  | int n =>
    obtain rfl := Fit.eq_of_textOf_int hw
    rw [String.toList_ofList]
    exact .inr fun h => absurd (isNumberPart_of_mem_integer h) (by decide)
  | float x =>
    cases hw
    rw [String.toList_ofList]
    exact .inr (mark_not_mem_displayNumbers x)
  | null => cases hw
  | array vs => cases hw
  | map es => cases hw

namespace Reply

/-! ## The detour -/

/-- The text that a reply for a scalar is looked up by; null and containers have none. -/
def scalarText? (t : Text) : Option String :=
  match Fit.textOf (scalarValue t) with
  | .ok text => text
  | .error _ => none

/-- The text of a scalar is that of the value that it reads as. -/
theorem scalarText?_eq_some_iff {t : Text} {w : String} :
    scalarText? t = some w ↔ Fit.textOf (scalarValue t) = .ok (some w) := by
  unfold scalarText?
  rcases Fit.textOf (scalarValue t) with e | text <;> simp

/-- The texts that are left alone when they are read as scalars and written again. -/
inductive ReadsAsItself (t : Text) : Prop where
  /-- A word that is neither value text nor fenced. -/
  | bare (hstrict : isStrict t = false) (hfences : fencedBlocks t = [])
  /-- A truth value. -/
  | truth (b : Bool) (h : t = (if b then "true" else "false").toList)
  /-- A whole number without a superfluous sign; one with too many digits is a bare word. -/
  | whole (n : Int) (h : t = Writer.integer n)
  /-- A double in the spelling that messages have for it. -/
  | float (x : Double) (hread : Value.read t = .ok (.float x))
      (hwrite : Value.displayNumbers.write x = t)

variable {t : Text}

/-- A text that the detour leaves alone comes back from it. -/
theorem ReadsAsItself.scalarText? (htrim : trim t = t) (h : ReadsAsItself t) :
    scalarText? t = some (String.ofList t) := by
  rw [scalarText?_eq_some_iff]
  cases h with
  | bare hstrict hfences =>
    rw [isStrict] at hstrict
    rcases hread : Value.read t with e | v
    · rw [scalarValue_of_bare (htrim.symm ▸ hread) hfences, htrim]
      rfl
    · rw [hread] at hstrict
      cases hstrict
  | truth b h =>
    have hread : Value.read t = .ok (.bool b) := by
      rw [h]
      cases b <;> rfl
    rw [scalarValue_of_read (htrim.symm ▸ hread), h, String.ofList_toList]
    rfl
  | whole n h =>
    have hread := read_integer n
    rw [← h] at hread
    split at hread
    · have hfences : fencedBlocks t = [] := by
        apply fencedBlocks_of_mark_not_mem
        rw [h]
        exact fun hmark => absurd (isNumberPart_of_mem_integer hmark) (by decide)
      rw [scalarValue_of_bare (htrim.symm ▸ hread) hfences, htrim]
      rfl
    · next hshort =>
      have hwritable : isWritableInteger n = true := decide_eq_true (Nat.not_lt.mp hshort)
      rw [scalarValue_of_read (htrim.symm ▸ hread), Fit.textOf, if_pos hwritable, h]
  | float x hread hwrite =>
    rw [scalarValue_of_read (htrim.symm ▸ hread), Fit.textOf, hwrite]

/-- What reads as a scalar that is written in the same way is a text that the detour leaves
alone. -/
theorem readsAsItself_of_read {v : Value} (hread : Value.read t = .ok v)
    (hv : Fit.textOf v = .ok (some (String.ofList t))) : ReadsAsItself t := by
  cases v with
  | str s =>
    have hshorter := length_lt_of_read_str hread
    rw [Option.some.inj (Except.ok.inj hv), String.toList_ofList] at hshorter
    exact absurd hshorter (Nat.lt_irrefl _)
  | bool b =>
    refine .truth b ?_
    rw [Option.some.inj (Except.ok.inj hv), String.toList_ofList]
  | int n => exact .whole n (String.ofList_injective (Fit.eq_of_textOf_int hv))
  | float x => exact .float x hread (String.ofList_injective (Option.some.inj (Except.ok.inj hv)))
  | null => cases hv
  | array vs => cases hv
  | map es => cases hv

/-- **The texts that come back from the detour unchanged.** -/
theorem scalarText?_eq_self_iff (htrim : trim t = t) :
    scalarText? t = some (String.ofList t) ↔ ReadsAsItself t := by
  refine ⟨fun h => ?_, ReadsAsItself.scalarText? htrim⟩
  rw [scalarText?_eq_some_iff] at h
  unfold scalarValue at h
  simp only [htrim] at h
  split at h
  · next v hfirst =>
    obtain ⟨b, hb, hread⟩ := firstReadable_eq_some hfirst
    rcases List.mem_cons.mp hb with rfl | hb
    · exact readsAsItself_of_read hread h
    · -- The text has a fence and is longer than the block, which what was read from the block is
      -- not.
      obtain ⟨hlonger, hmark⟩ := length_lt_of_mem_fencedBlocks hb
      rcases length_lt_or_mark_not_mem hread h with hshorter | hnone
      · rw [String.toList_ofList] at hshorter
        omega
      · rw [String.toList_ofList] at hnone
        exact absurd hmark hnone
  · next hfirst =>
    have hword := String.ofList_injective (Option.some.inj (Except.ok.inj h))
    rcases hfences : fencedBlocks t with _ | ⟨b, bs⟩
    · refine .bare ?_ hfences
      unfold isStrict
      rcases hread : Value.read t with e | v
      · rfl
      · simp only [firstReadable, hread] at hfirst
        cases hfirst
    · rw [hfences, List.head?_cons, Option.getD_some] at hword
      have := (length_lt_of_mem_fencedBlocks (t := t) (b := b) (by simp [hfences])).1
      rw [hword] at this
      exact absurd this (Nat.lt_irrefl _)

/-! ## Replies for an enum -/

variable {settings : Settings} {resolve : Resolver} {values : List String}
  {aliases : List (String × String)} {done : Bool} {m : String}

/-- Without a target, what is read is the value. -/
theorem read_none (s : Option Schema) :
    read settings resolve t none s done = value settings resolve t s done := by
  unfold read
  rcases value settings resolve t s done with e | v
  · rfl
  · rfl

/-- A value is read for a schema when what is found in the text fits as this value, and when the
schema accepts it if it is asked. -/
theorem value_eq_ok_iff {s : Schema} {v : Value} :
    value settings resolve t (some s) done = .ok v ↔
      ∃ raw, rawValue settings resolve t (some s) done = .ok raw ∧ fit resolve raw s = .ok v ∧
        (settings.validateOutput = true → Accepts resolve v s) := by
  have hchecked : ∀ fitted, (do
      if settings.validateOutput then (check resolve fitted s).mapError .violated
      return fitted : Except ReplyError Value) = .ok v ↔
        fitted = v ∧ (settings.validateOutput = true → Accepts resolve v s) := by
    intro fitted
    by_cases hvalidate : settings.validateOutput = true
    · simp only [if_pos hvalidate, bind_eq_ok_iff, mapError_eq_ok_iff]
      constructor
      · rintro ⟨_, hcheck, hv⟩
        cases hv
        exact ⟨rfl, fun _ => hcheck⟩
      · rintro ⟨rfl, hcheck⟩
        exact ⟨(), hcheck hvalidate, rfl⟩
    · simp only [hvalidate]
      constructor
      · intro hv
        cases hv
        exact ⟨rfl, fun h => by cases h⟩
      · rintro ⟨rfl, -⟩
        rfl
  unfold value
  simp only [bind_eq_ok_iff, mapError_eq_ok_iff, hchecked]
  constructor
  · rintro ⟨raw, hraw, fitted, hfit, rfl, hcheck⟩
    exact ⟨raw, hraw, hfit, hcheck⟩
  · rintro ⟨raw, hraw, hfit, hcheck⟩
    exact ⟨raw, hraw, v, hfit, rfl, hcheck⟩

/-- A value has a text where a text is asked for. -/
theorem toText_eq_ok_iff {s : Schema} {v : Value} {w : String} :
    Fit.toText s v = .ok w ↔ Fit.textOf v = .ok (some w) := by
  unfold Fit.toText
  rw [bind_eq_ok_iff]
  constructor
  · rintro ⟨found, hfound, htext⟩
    cases found with
    | some text =>
      cases htext
      exact hfound
    | none => cases htext
  · exact fun h => ⟨some w, h, rfl⟩

/-- **What a reply for an enum is read as**: the value that its text leads to, which has to be one
of the enum if it is checked. -/
theorem read_enum_eq_ok_iff {v : Value} :
    read settings resolve t none (some (.enum values aliases)) done = .ok v ↔
      ∃ w, scalarText? t = some w ∧ .str (Fit.enumMember values aliases w) = v ∧
        (settings.validateOutput = true → values = [] ∨
          Fit.enumMember values aliases w ∈ values) := by
  have hraw : rawValue settings resolve t (some (.enum values aliases)) done =
      .ok (scalarValue t) :=
    if_pos rfl
  have hfit : fit resolve (scalarValue t) (.enum values aliases) = .ok v ↔
      ∃ w, scalarText? t = some w ∧ .str (Fit.enumMember values aliases w) = v := by
    rw [Fit.fit_eq, Fit.fitNode, Fit.toEnum, map_eq_ok_iff]
    simp only [toText_eq_ok_iff, scalarText?_eq_some_iff]
  rw [read_none, value_eq_ok_iff, hraw]
  constructor
  · rintro ⟨_, ⟨⟩, h, haccepts⟩
    obtain ⟨w, hw, rfl⟩ := hfit.mp h
    refine ⟨w, hw, rfl, fun hvalidate => ?_⟩
    obtain ⟨_, ⟨⟩, hlisted⟩ := accepts_enum.mp (haccepts hvalidate)
    exact hlisted
  · rintro ⟨w, hw, rfl, hlisted⟩
    exact ⟨_, rfl, hfit.mpr ⟨w, hw, rfl⟩, fun h => accepts_enum.mpr ⟨_, rfl, hlisted h⟩⟩

/-- The instruction for an enum can always be written. -/
theorem instruct_enum (known : Table Definition) (further : Table Value) :
    Prompt.instruct known (.enum values aliases) further = .ok (Prompt.categories values) := by
  have hshown : Prompt.shownByInstruction known (.enum values aliases) further = [] := by
    simp only [Prompt.shownByInstruction, Prompt.shown, Prompt.shownBySchema, Prompt.shownWith]
  unfold Prompt.instruct
  rw [hshown]
  rfl

/-- Each category is listed behind a dash. -/
theorem exists_categories_eq (hm : m ∈ values) :
    ∃ before after, Prompt.categories values = before ++ "\n- " ++ m ++ after := by
  obtain ⟨front, back, rfl⟩ := List.append_of_mem hm
  refine ⟨"Answer with any of the categories:\n----" ++
    String.join (front.map fun v => "\n- " ++ v), String.join (back.map fun v => "\n- " ++ v), ?_⟩
  unfold Prompt.categories
  simp only [List.map_append, List.map_cons, String.join_append, String.join_cons,
    String.append_assoc]

/-- **Which categories are read back.** The instruction for an enum lists each of its values behind
a dash. A reply with a listed value that has no blanks around it, and with nothing else, is read as
this value exactly when the value reads as itself, or when what it reads as is no value of the enum
and leads back to it as an alias or in another case. -/
theorem read_category_iff (hm : m ∈ values) (htrim : trim m.toList = m.toList)
    (known : Table Definition) (further : Table Value) :
    (∃ before after, Prompt.instruct known (.enum values aliases) further =
      .ok (before ++ "\n- " ++ m ++ after)) ∧
    (read settings resolve m.toList none (some (.enum values aliases)) done = .ok (.str m) ↔
      ReadsAsItself m.toList ∨
        ∃ w, scalarText? m.toList = some w ∧ w ∉ values ∧ Fit.enumMember values aliases w = m) := by
  have hmember : ∀ w ∈ values, Fit.enumMember values aliases w = w := by
    intro w hw
    rw [Fit.enumMember, if_pos]
    rw [List.contains_iff_mem.mpr hw, Bool.or_true]
  have hself := scalarText?_eq_self_iff htrim
  rw [String.ofList_toList] at hself
  constructor
  · obtain ⟨before, after, hlisted⟩ := exists_categories_eq hm
    exact ⟨before, after, by rw [instruct_enum, hlisted]⟩
  · rw [read_enum_eq_ok_iff, ← hself]
    constructor
    · rintro ⟨w, hw, hlead, -⟩
      have hlead := Value.str.inj hlead
      by_cases hlisted : w ∈ values
      · rw [hmember w hlisted] at hlead
        exact .inl (hlead ▸ hw)
      · exact .inr ⟨w, hw, hlisted, hlead⟩
    · rintro (hw | ⟨w, hw, -, hlead⟩)
      · have hlead := hmember m hm
        exact ⟨m, hw, congrArg Value.str hlead, fun _ => .inr (hlead.symm ▸ hm)⟩
      · exact ⟨w, hw, congrArg Value.str hlead, fun _ => .inr (hlead.symm ▸ hm)⟩

/-- Moods, one of which looks like a number. -/
def moods : List String := ["very good", "-1.5"]

/-- A category of two words, and one that spells a number. -/
theorem read_category_moods :
    ("very good" ∈ moods ∧ trim "very good".toList = "very good".toList ∧
      read {} (fun _ => none) "very good".toList none (some (.enum moods [])) true =
        .ok (.str "very good")) ∧
    ("-1.5" ∈ moods ∧ trim "-1.5".toList = "-1.5".toList ∧
      read {} (fun _ => none) "-1.5".toList none (some (.enum moods [])) true =
        .ok (.str "-1.5")) := by
  have hword : "very good" ∈ moods := by decide
  have hnumber : "-1.5" ∈ moods := by decide
  have htrimWord : trim "very good".toList = "very good".toList := by decide +kernel
  have htrimNumber : trim "-1.5".toList = "-1.5".toList := by decide +kernel
  refine ⟨⟨hword, htrimWord, ?_⟩, hnumber, htrimNumber, ?_⟩
  · apply (read_category_iff hword htrimWord [] []).2.mpr
    exact .inl (.bare (by decide +kernel) (by decide +kernel))
  · apply (read_category_iff hnumber htrimNumber [] []).2.mpr
    exact .inl (.float (.finite true 6755399441055744 (-52)) (by rfl) (by decide +kernel))

/-- **Not every category is read back.** Null has no text to look up, a double comes back in its own
spelling, which may be another category, and of a fenced category the inside is looked up. -/
theorem read_unlike_category :
    (∀ v, read {} (fun _ => none) "null".toList none (some (.enum ["null"] [])) true ≠ .ok v) ∧
    read {} (fun _ => none) "1.50".toList none (some (.enum ["1.50", "1.5"] [])) true =
      .ok (.str "1.5") ∧
    ∀ v, read {} (fun _ => none) "\x60\x60\x60a\x60\x60\x60".toList none
      (some (.enum ["\x60\x60\x60a\x60\x60\x60"] [])) true ≠ .ok v := by
  have hnull : scalarText? "null".toList = none := by decide +kernel
  have hnumber : scalarText? "1.50".toList = some "1.5" := by decide +kernel
  have hfenced : scalarText? "\x60\x60\x60a\x60\x60\x60".toList = some "a" := by decide +kernel
  refine ⟨fun v => ?_, ?_, fun v => ?_⟩
  · rw [ne_eq, read_enum_eq_ok_iff, hnull]
    rintro ⟨_, ⟨⟩, -⟩
  · exact read_enum_eq_ok_iff.mpr ⟨_, hnumber, by decide +kernel, by decide +kernel⟩
  · rw [ne_eq, read_enum_eq_ok_iff, hfenced]
    rintro ⟨_, ⟨⟩, -, hlisted⟩
    exact absurd (hlisted rfl) (by decide +kernel)

end Reply

end ShapedReply
