import ShapedReply.Prompt.Message
import ShapedReply.Proofs.Outcome
import ShapedReply.Proofs.Reading.Number
import ShapedReply.Proofs.Table
import ShapedReply.Proofs.Text.Trim

/-!
# Where a prompt has its instruction

The message of the system gets its instruction in one of two ways. If the template does not mention
the variable for it, the instruction goes behind the template; in either case the places of the
template are filled. The instruction that was put behind is filled as well, so that a place in it is
filled with the instruction.

* `exists_isPlace_of_place?`, `place?_of_isPlace`: a place is a name with blanks around it between
  two pairs of braces. Inside a place no brace opens, so two places never overlap
  (`exists_of_place_before`), and a template is gone along place by place (`template_induction`).
* `infix_fillFrom`: **a variable is filled in wherever there is a place for it.**
* `fillFrom_of_not_isPlaced`: without a place for the only variable a template stays as it is.
* `infix_pair_or_mentioned`: so the message of the system has the instruction in it, **but for a
  template that mentions the variable and has no place for it**: it stays as it is, without the
  instruction (`pair_without_instruction`).
-/

namespace ShapedReply.Prompt

open Text

/-! ## Places -/

/-- Whether a text is a name for a variable. -/
def isVariable : Text → Bool
  | [] => false
  | c :: r => Text.isNameStart c && r.all continuesName

/-- `IsPlace name p`: the text `p` is a place for the variable `name`. -/
def IsPlace (name p : Text) : Prop :=
  ∃ before after : Text, (∀ c ∈ before, isBlank c = true) ∧ (∀ c ∈ after, isBlank c = true) ∧
    p = '{' :: '{' :: (before ++ (name ++ (after ++ ['}', '}'])))

/-- `IsPlaced name t`: somewhere in the text `t` is a place for the variable `name`. -/
def IsPlaced (name t : Text) : Prop :=
  ∃ p, IsPlace name p ∧ p <:+: t

/-- What starts a name may stand inside one. -/
theorem continuesName_of_isNameStart {c : Char} (h : Text.isNameStart c = true) :
    continuesName c = true := by
  simp [continuesName, Text.isNamePart, h]

/-- What a name goes on with is neither a blank nor a brace. -/
theorem plain_of_continuesName {c : Char} (h : continuesName c = true) :
    isBlank c = false ∧ c ≠ '{' ∧ c ≠ '}' := by
  have hle {a b : Char} (hab : a ≤ b) : a.toNat ≤ b.toNat :=
    UInt32.le_iff_toNat_le.mp (Char.le_def.mp hab)
  have hcode : 0x2E ≤ c.toNat ∧ c.toNat ≤ 0x7A := by
    simp only [continuesName, Text.isNamePart, Text.isNameStart, Text.isAsciiDigit, Bool.or_eq_true,
      Bool.and_eq_true, decide_eq_true_eq, beq_iff_eq] at h
    rcases h with (((⟨hlow, hhigh⟩ | ⟨hlow, hhigh⟩) | rfl) | ⟨hlow, hhigh⟩) | rfl
    · exact ⟨Nat.le_trans (by decide) (hle hlow), Nat.le_trans (hle hhigh) (by decide)⟩
    · exact ⟨Nat.le_trans (by decide) (hle hlow), Nat.le_trans (hle hhigh) (by decide)⟩
    · decide
    · exact ⟨Nat.le_trans (by decide) (hle hlow), Nat.le_trans (hle hhigh) (by decide)⟩
    · decide
  refine ⟨?_, ?_, ?_⟩
  · simp only [isBlank, Bool.or_eq_false_iff, Bool.and_eq_false_iff, decide_eq_false_iff_not,
      beq_eq_false_iff_ne]
    omega
  · rintro rfl
    exact absurd hcode (by decide)
  · rintro rfl
    exact absurd hcode (by decide)

/-- A variable starts as a name and goes on as one. -/
theorem exists_of_isVariable {name : Text} (h : isVariable name = true) :
    ∃ c r, name = c :: r ∧ Text.isNameStart c = true ∧ ∀ d ∈ name, continuesName d = true := by
  cases name with
  | nil => cases h
  | cons c r =>
    rw [isVariable, Bool.and_eq_true, List.all_eq_true] at h
    exact ⟨c, r, rfl, h.1, List.forall_mem_cons.mpr ⟨continuesName_of_isNameStart h.1, h.2⟩⟩

/-- What is read as a place is a place. -/
theorem exists_isPlace_of_place? {t name rest : Text} (h : place? t = some (name, rest)) :
    isVariable name = true ∧ ∃ p, IsPlace name p ∧ t = p ++ rest := by
  unfold place? at h
  split at h
  · next r =>
    simp only at h
    split at h
    · next c tail rest' hname hrest =>
      split at h
      · next hstart =>
        cases h
        have hall : ∀ d ∈ (trimStart r).takeWhile continuesName, continuesName d = true :=
          fun d hd => List.all_eq_true.mp List.all_takeWhile d hd
        refine ⟨?_, _, ⟨r.takeWhile isBlank,
          ((trimStart r).dropWhile continuesName).takeWhile isBlank, ?_, ?_, rfl⟩, ?_⟩
        · rw [hname, List.forall_mem_cons] at hall
          rw [hname, isVariable, hstart, Bool.true_and, List.all_eq_true]
          exact hall.2
        · exact fun d hd => List.all_eq_true.mp List.all_takeWhile d hd
        · exact fun d hd => List.all_eq_true.mp List.all_takeWhile d hd
        · have hbehind : (trimStart r).dropWhile continuesName =
              ((trimStart r).dropWhile continuesName).takeWhile isBlank ++ '}' :: '}' :: rest := by
            rw [← hrest]
            exact List.takeWhile_append_dropWhile.symm
          have hr : r = r.takeWhile isBlank ++ ((trimStart r).takeWhile continuesName ++
              (((trimStart r).dropWhile continuesName).takeWhile isBlank ++
                '}' :: '}' :: rest)) := by
            rw [← hbehind, List.takeWhile_append_dropWhile, trimStart,
              List.takeWhile_append_dropWhile]
          simpa using hr
      · cases h
    · cases h
  · cases h

/-- A place is read as such, whatever follows. -/
theorem place?_of_isPlace {name p : Text} (hname : isVariable name = true) (hp : IsPlace name p)
    (rest : Text) : place? (p ++ rest) = some (name, rest) := by
  obtain ⟨before, after, hbefore, hafter, rfl⟩ := hp
  obtain ⟨c, r, rfl, hstart, hall⟩ := exists_of_isVariable hname
  have hc := (plain_of_continuesName (continuesName_of_isNameStart hstart)).1
  -- behind the name comes a blank or a brace, and neither goes on with a name
  have hstop : ∀ d ∈ (after ++ '}' :: '}' :: rest).head?, continuesName d = false := by
    intro d hd
    rw [Bool.eq_false_iff]
    intro hcontinues
    obtain ⟨hblank, -, hbrace⟩ := plain_of_continuesName hcontinues
    rcases after with _ | ⟨e, after⟩
    · exact hbrace (Option.some.inj hd).symm
    · obtain rfl : e = d := Option.some.inj hd
      rw [hafter e List.mem_cons_self] at hblank
      cases hblank
  have htext : '{' :: '{' :: (before ++ (c :: r ++ (after ++ ['}', '}']))) ++ rest =
      '{' :: '{' :: (before ++ (c :: r ++ (after ++ '}' :: '}' :: rest))) := by simp
  have hskip : trimStart (before ++ (c :: r ++ (after ++ '}' :: '}' :: rest))) =
      c :: r ++ (after ++ '}' :: '}' :: rest) := by
    rw [trimStart_append hbefore, List.cons_append, trimStart_cons hc]
  have hend : trimStart (after ++ '}' :: '}' :: rest) = '}' :: '}' :: rest := by
    rw [trimStart_append hafter, trimStart_cons rfl]
  obtain ⟨htake, hdrop⟩ := Reader.takeWhile_row (c :: r) hall hstop
  rw [htext, place?]
  simp only [hskip, htake, hdrop, hend, hstart, if_true]

/-- Behind its first two braces, in a place no brace opens. -/
theorem exists_of_isPlace {name p : Text} (hname : isVariable name = true) (hp : IsPlace name p) :
    ∃ q, p = '{' :: '{' :: q ∧ '{' ∉ q ∧ q ≠ [] := by
  obtain ⟨before, after, hbefore, hafter, rfl⟩ := hp
  obtain ⟨c, r, -, -, hall⟩ := exists_of_isVariable hname
  have hblank {g : Text} (hg : ∀ c ∈ g, isBlank c = true) : '{' ∉ g := by
    intro hmem
    exact absurd (hg _ hmem) (by decide)
  refine ⟨_, rfl, ?_, by simp⟩
  simp only [List.mem_append, not_or]
  exact ⟨hblank hbefore, fun hmem => (plain_of_continuesName (hall _ hmem)).2.1 rfl, hblank hafter,
    by decide⟩

/-- **Two places do not overlap**: one that starts before another ends before it. -/
theorem exists_of_place_before {name name' p p' a r t : Text} (hname : isVariable name = true)
    (hname' : isVariable name' = true) (hp : IsPlace name p) (hp' : IsPlace name' p') (ha : a ≠ [])
    (h : p' ++ t = a ++ (p ++ r)) : ∃ m, t = m ++ (p ++ r) := by
  obtain ⟨q, rfl, -, -⟩ := exists_of_isPlace hname hp
  obtain ⟨q', rfl, hq', hne⟩ := exists_of_isPlace hname' hp'
  obtain ⟨c, a, rfl⟩ := List.exists_cons_of_ne_nil ha
  have htail : '{' :: (q' ++ t) = a ++ '{' :: '{' :: (q ++ r) := (List.cons.inj h).2
  rcases List.cons_eq_append_iff.mp htail with ⟨-, hcons⟩ | ⟨a', -, hrest⟩
  · -- the second place would start with the second brace of the first
    obtain ⟨d, q', rfl⟩ := List.exists_cons_of_ne_nil hne
    have hd : '{' = d := (List.cons.inj (List.cons.inj hcons).2).1
    exact absurd (hd ▸ List.mem_cons_self) hq'
  · rcases List.append_eq_append_iff.mp hrest with ⟨m, -, hm⟩ | ⟨m, hm, hbehind⟩
    · exact ⟨m, hm⟩
    · rcases List.cons_eq_append_iff.mp hbehind with ⟨-, hcons⟩ | ⟨m', rfl, -⟩
      · exact ⟨[], hcons⟩
      · exact absurd (hm ▸ List.mem_append_right _ List.mem_cons_self) hq'

/-! ## Filling, place by place -/

/-- What still belongs to the last place is passed over. -/
theorem fillFrom_length (bindings : Table Value) (s r : Text) :
    fillFrom bindings s.length (s ++ r) = fillFrom bindings 0 r := by
  induction s with
  | nil => rfl
  | cons c s ih => rw [List.length_cons, List.cons_append, fillFrom, ih]

/-- A character that starts no place stays. -/
theorem fillFrom_cons (bindings : Table Value) {c : Char} {r : Text} (h : place? (c :: r) = none) :
    fillFrom bindings 0 (c :: r) = c :: fillFrom bindings 0 r := by
  rw [fillFrom, h]

/-- A place is filled with what its variable is bound to; a place for another variable stays. -/
theorem fillFrom_place (bindings : Table Value) {name p : Text} (hname : isVariable name = true)
    (hp : IsPlace name p) (r : Text) :
    fillFrom bindings 0 (p ++ r) =
      ((bindings.get? (String.ofList name)).elim p filling) ++ fillFrom bindings 0 r := by
  have hplace := place?_of_isPlace hname hp r
  obtain ⟨q, rfl, -, -⟩ := exists_of_isPlace hname hp
  rw [List.cons_append] at hplace ⊢
  have hlength : ('{' :: q ++ r).length - r.length = ('{' :: q).length := by
    rw [List.length_append, Nat.add_sub_cancel]
  rw [fillFrom, hplace]
  simp only
  rw [hlength, fillFrom_length, List.take_left]
  cases bindings.get? (String.ofList name) <;> rfl

/-- Induction along a template, place by place. -/
theorem template_induction {P : Text → Prop} (nil : P [])
    (char : ∀ c r, place? (c :: r) = none → P r → P (c :: r))
    (place : ∀ name p r, isVariable name = true → IsPlace name p → P r → P (p ++ r)) (t : Text) :
    P t := by
  induction hn : t.length using Nat.strongRecOn generalizing t with
  | ind n ih =>
    subst hn
    cases t with
    | nil => exact nil
    | cons c r =>
      rcases hplace : place? (c :: r) with _ | ⟨name, rest⟩
      · exact char c r hplace (ih r.length (Nat.lt_succ_self _) r rfl)
      · obtain ⟨hname, p, hp, htext⟩ := exists_isPlace_of_place? hplace
        obtain ⟨q, rfl, -⟩ := exists_of_isPlace hname hp
        rw [htext]
        refine place name _ rest hname hp (ih rest.length ?_ rest rfl)
        rw [htext]
        simp
        omega

/-- **A variable is filled in wherever there is a place for it.** -/
theorem infix_fillFrom {bindings : Table Value} {name t : Text} {v : Value}
    (hname : isVariable name = true) (hbound : bindings.get? (String.ofList name) = some v)
    (h : IsPlaced name t) :
    filling v <:+: fillFrom bindings 0 t := by
  obtain ⟨p, hp, a, r, ht⟩ := h
  rw [List.append_assoc] at ht
  induction t using template_induction generalizing a with
  | nil =>
    obtain ⟨q, rfl, -⟩ := exists_of_isPlace hname hp
    simp at ht
  | char c t hnone ih =>
    cases a with
    | nil =>
      rw [← ht, List.nil_append, place?_of_isPlace hname hp] at hnone
      cases hnone
    | cons d a =>
      rw [fillFrom_cons bindings hnone]
      exact (ih a (List.cons.inj ht).2).trans (List.suffix_cons _ _).isInfix
  | place name' p' t hname' hp' ih =>
    rw [fillFrom_place bindings hname' hp']
    by_cases ha : a = []
    · subst ha
      -- both places start here, so they are one
      have hfirst := place?_of_isPlace hname' hp' t
      rw [← ht, List.nil_append, place?_of_isPlace hname hp] at hfirst
      obtain ⟨rfl, rfl⟩ := Prod.mk.inj (Option.some.inj hfirst)
      rw [hbound]
      exact (List.prefix_append _ _).isInfix
    · obtain ⟨m, hm⟩ := exists_of_place_before hname hname' hp hp' ha ht.symm
      exact (ih m hm.symm).trans (List.suffix_append _ _).isInfix

/-- **Without a place for the only variable a template stays as it is.** -/
theorem fillFrom_of_not_isPlaced {name t : Text} (v : Value) (h : ¬ IsPlaced name t) :
    fillFrom [(String.ofList name, v)] 0 t = t := by
  induction t using template_induction with
  | nil => rfl
  | char c t hnone ih =>
    rw [fillFrom_cons _ hnone, ih]
    rintro ⟨p, hp, hin⟩
    exact h ⟨p, hp, hin.trans (List.suffix_cons c t).isInfix⟩
  | place name' p' t hname' hp' ih =>
    have hother : Table.get? [(String.ofList name, v)] (String.ofList name') = none := by
      rw [Table.get?_eq_none_iff, Table.names_cons, Table.names_nil, List.mem_singleton]
      intro heq
      obtain rfl : name' = name := String.ofList_injective heq
      exact h ⟨p', hp', (List.prefix_append p' t).isInfix⟩
    rw [fillFrom_place _ hname' hp', hother, ih]
    · rfl
    · rintro ⟨p, hp, hin⟩
      exact h ⟨p, hp, hin.trans (List.suffix_append p' t).isInfix⟩

/-! ## The message of the system -/

/-- One text occurs in another exactly if it is an infix of it. -/
theorem occursIn_iff {part t : Text} : Text.occursIn part t = true ↔ part <:+: t := by
  induction t with
  | nil => rw [Text.occursIn, List.isEmpty_iff, List.infix_nil]
  | cons c r ih =>
    rw [Text.occursIn, Bool.or_eq_true, List.isPrefixOf_iff_prefix, ih, List.infix_cons_iff]

/-- The variable for the instruction, by its characters. -/
def instructionName : Text := instructionVariable.toList

/-- The name of the instruction, as a string. -/
theorem ofList_instructionName : String.ofList instructionName = instructionVariable :=
  String.ofList_toList

/-- The name of the instruction is that of a variable. -/
theorem isVariable_instructionName : isVariable instructionName = true := by
  decide

/-- The template of the message of the system: the given one, with the instruction behind it if that
does not mention the variable for it. -/
def opening (system text : String) : String :=
  if Text.occursIn instructionName system.toList then system else system ++ "\n\n" ++ text

/-- The two messages, for an instruction that can be written and is not empty. -/
theorem pair_eq_ok {known : Table Definition} {s : Schema} {text : String}
    (htext : instruct known s [] = .ok text) (hne : text ≠ "") (system user : String) :
    pair known system user (some s) =
      .ok [⟨"system", fill (opening system text) [(instructionVariable, .str text)]⟩,
        ⟨"user", fill user [(instructionVariable, .str text)]⟩] := by
  have hwith : withInstruction known system s = .ok (system ++ "\n\n" ++ text) := by
    rw [withInstruction, htext]
    simp [hne, bind, Except.bind, pure, Except.pure]
  have hbuild (d : Draft) : d.build known (some s) [] = .ok (d.messages (some text)) := by
    rw [Draft.build, Option.mapM_some, htext]
    rfl
  rw [pair, opening, instructionName]
  simp only [hwith, hbuild]
  split <;> rfl

/-- A template is filled with the instruction wherever it has a place for it. -/
theorem infix_fill_of_isPlaced {template : String} (text : String)
    (h : IsPlaced instructionName template.toList) :
    text.toList <:+: (fill template [(instructionVariable, .str text)]).toList := by
  have hbound : Table.get? [(instructionVariable, Value.str text)] (String.ofList instructionName) =
      some (.str text) := by
    rw [ofList_instructionName, Table.get?_cons, if_pos rfl]
  rw [fill, String.toList_ofList]
  exact infix_fillFrom isVariable_instructionName hbound h

/-- A template without such a place stays as it is. -/
theorem fill_of_not_isPlaced {template : String} (text : String)
    (h : ¬ IsPlaced instructionName template.toList) :
    fill template [(instructionVariable, .str text)] = template := by
  rw [fill, ← ofList_instructionName, fillFrom_of_not_isPlaced _ h, String.ofList_toList]

/-- **The message of the system has the instruction in it, unless the template mentions the variable
for it and has no place for it**: then it is the template. -/
theorem infix_pair_or_mentioned {known : Table Definition} {s : Schema} {text : String}
    (htext : instruct known s [] = .ok text) (hne : text ≠ "") (system user : String) :
    ∃ content reply, pair known system user (some s) = .ok [⟨"system", content⟩, ⟨"user", reply⟩] ∧
      ((instructionName <:+: system.toList → IsPlaced instructionName system.toList) →
        text.toList <:+: content.toList) ∧
      (instructionName <:+: system.toList → ¬ IsPlaced instructionName system.toList →
        content = system) := by
  refine ⟨_, _, pair_eq_ok htext hne system user, ?_, ?_⟩
  · intro hmentioned
    by_cases hplaced : IsPlaced instructionName (opening system text).toList
    · exact infix_fill_of_isPlaced text hplaced
    · rw [fill_of_not_isPlaced text hplaced]
      -- a template with the variable in it would have a place, so the instruction was put behind
      have hnot : ¬ Text.occursIn instructionName system.toList = true := by
        intro hin
        rw [opening, if_pos hin] at hplaced
        exact hplaced (hmentioned (occursIn_iff.mp hin))
      rw [opening, if_neg hnot, String.toList_append]
      exact (List.suffix_append _ _).isInfix
  · intro hin hplaced
    rw [opening, if_pos (occursIn_iff.mpr hin)]
    exact fill_of_not_isPlaced text hplaced

/-- The category that is a place for the instruction. -/
def placeholder : String := "\x7b\x7b ctx.output_format \x7d\x7d"

/-- An instruction that is put behind a template, and filled with itself there. -/
theorem infix_pair_or_mentioned_placeholder :
    instruct [] (.enum [placeholder, "other"] []) [] = .ok (categories [placeholder, "other"]) ∧
      categories [placeholder, "other"] ≠ "" ∧
      ∃ content reply, pair [] "Be brief." "Which one?" (some (.enum [placeholder, "other"] [])) =
          .ok [⟨"system", content⟩, ⟨"user", reply⟩] ∧
        (categories [placeholder, "other"]).toList <:+: content.toList := by
  have htext : instruct [] (.enum [placeholder, "other"] []) [] =
      .ok (categories [placeholder, "other"]) := rfl
  have hne : categories [placeholder, "other"] ≠ "" := by decide
  have hunmentioned : ¬ instructionName <:+: "Be brief.".toList := by
    rw [← occursIn_iff]
    decide
  obtain ⟨content, reply, hpair, hin, -⟩ :=
    infix_pair_or_mentioned htext hne "Be brief." "Which one?"
  exact ⟨htext, hne, content, reply, hpair, hin fun hmentioned => absurd hmentioned hunmentioned⟩

/-- A template that mentions the variable in passing: the message has no instruction. -/
theorem pair_without_instruction :
    instruct [] .int [] = .ok "Answer as an int" ∧
      pair [] "Follow ctx.output_format." "How many?" (some .int) =
        .ok [⟨"system", "Follow ctx.output_format."⟩, ⟨"user", "How many?"⟩] ∧
      ¬ "Answer as an int".toList <:+: "Follow ctx.output_format.".toList := by
  refine ⟨rfl, rfl, ?_⟩
  rw [← occursIn_iff]
  decide

end ShapedReply.Prompt
