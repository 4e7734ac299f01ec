import ShapedReply.Proofs.Mending.Comments
import ShapedReply.Proofs.Mending.Keys

/-!
# The order of the stages

Mending drops trailing commas before it quotes keys, changes quotes and escapes control characters;
completion drops them afterwards. On texts in which no carriage return stands behind a backslash
inside a literal, the order makes no difference.

The three stages in between go along a text together, in steps: a character of code, a bare key up
to its colon, or a literal. `Respells` is the relation of a text to what they make of it, one
constructor for each step.

* `Respells.stages_eq`, `exists_respells`: the stages compute the relation.
* `Respells.dropTrailingCommas`: **dropping the commas of a text drops the same commas from what the
  stages make of it.**
* `dropTrailingCommas_append_blanks`, `getLast?_dropTrailingCommas`: what dropping commas leaves at
  the end of a text.

A raw carriage return is dropped from a literal. Behind a backslash this leaves the backslash to the
next character, perhaps the quote that ends the literal, which is why such texts are left out.
-/

namespace ShapedReply

open Text Mend Spelling

/-! ## Literals -/

/-- Whether a carriage return stands behind a backslash in a literal. -/
def escapesReturn : Text → Bool
  | '\\' :: c :: r => c == '\r' || escapesReturn r
  | _ :: r => escapesReturn r
  | [] => false

/-- Past a character that is no backslash. -/
theorem escapesReturn_plain {c : Char} (hc : c ≠ '\\') (r : Text) :
    escapesReturn (c :: r) = escapesReturn r := by
  rw [escapesReturn]
  rintro _ _ rfl
  exact absurd rfl hc

/-- Past a character behind a backslash. -/
theorem escapesReturn_escaped {c : Char} {r : Text} (h : escapesReturn ('\\' :: c :: r) = false) :
    c ≠ '\r' ∧ escapesReturn r = false := by
  rwa [escapesReturn, Bool.or_eq_false_iff, beq_eq_false_iff_ne] at h

/-- A backslash behind a literal escapes nothing. -/
theorem escapesReturn_of_concat {q : Char} {v : Text} (h : Sealed q v)
    (hreturn : escapesReturn (v ++ ['\\']) = false) : escapesReturn v = false := by
  induction h with
  | nil => rfl
  | plain hslash _ _ ih =>
    rw [List.cons_append, escapesReturn_plain hslash] at hreturn
    rw [escapesReturn_plain hslash]
    exact ih hreturn
  | escaped _ ih =>
    obtain ⟨hc, hrest⟩ := escapesReturn_escaped hreturn
    rw [escapesReturn, ih hrest, Bool.or_false, beq_eq_false_iff_ne]
    exact hc

/-- What an escaped character becomes is sealed with its backslash, if it does not go. -/
theorem sealed_escaped_escapeControl {q : Char} (hq : isCode q = false) {c : Char} (hc : c ≠ '\r') :
    Sealed q ('\\' :: escapeControl c) := by
  -- a backslash takes the backslash of an escape, and plain characters are left
  have hplain : ∀ {d : Char} {w : Text}, (∀ x ∈ d :: w, x ∈ 'n' :: 't' :: 'u' :: hexDigits) →
      Sealed q ('\\' :: '\\' :: d :: w) := by
    intro d w hw
    refine .escaped (sealed_of_forall_ne fun x hx => ?_)
    have hne : ∀ x ∈ 'n' :: 't' :: 'u' :: hexDigits, x ≠ '\\' ∧ x ≠ '"' ∧ x ≠ '\'' := by decide
    obtain ⟨hslash, hdouble, hsingle⟩ := hne x (hw x hx)
    rcases eq_quote hq with rfl | rfl
    · exact ⟨hslash, hdouble⟩
    · exact ⟨hslash, hsingle⟩
  rcases escapeControl_cases hc with ⟨h, -⟩ | ⟨h, -⟩ | ⟨h, hlow⟩ | ⟨h, -⟩
  · rw [h]
    exact hplain (by simp)
  · rw [h]
    exact hplain (by simp)
  · obtain ⟨a, b, d, e, hunit, hhex⟩ := unitEscape_eq c.toNat hlow
    rw [h, hunit]
    refine hplain (List.forall_mem_cons.mpr ⟨by simp, fun x hx => ?_⟩)
    simp [mem_hexDigits_of_unit hhex x hx]
  · rw [h]
    exact .escaped .nil

/-- A literal without its raw control characters stays one. -/
theorem sealed_flatMap_escapeControl {q : Char} (hq : isCode q = false) {body : Text}
    (h : Sealed q body) (hreturn : escapesReturn body = false) :
    Sealed q (body.flatMap escapeControl) := by
  induction h with
  | nil => exact .nil
  | plain hslash hquote _ ih =>
    rw [escapesReturn_plain hslash] at hreturn
    rw [List.flatMap_cons]
    exact (sealed_escapeControl hq hslash hquote).append (ih hreturn)
  | @escaped c r _ ih =>
    obtain ⟨hc, hrest⟩ := escapesReturn_escaped hreturn
    exact (sealed_escaped_escapeControl hq hc).append (ih hrest)

/-- An open literal without its raw control characters stays open. -/
theorem unclosed_flatMap_escapeControl {q : Char} (hq : isCode q = false) {w : Text}
    (h : Unclosed q w) (hreturn : escapesReturn w = false) :
    Unclosed q (w.flatMap escapeControl) := by
  rcases h with h | ⟨v, h, rfl⟩
  · exact .inl (sealed_flatMap_escapeControl hq h hreturn)
  · refine .inr ⟨_, sealed_flatMap_escapeControl hq h (escapesReturn_of_concat h hreturn), ?_⟩
    rw [List.flatMap_append]
    rfl

/-- In double quotes, what stood in single quotes is sealed. -/
theorem sealed_requoteBody {body : Text} (h : Sealed '\'' body) :
    Sealed '"' (requoteBody body) := by
  induction h with
  | nil => exact .nil
  | @plain c r hslash hquote _ ih =>
    by_cases hdouble : c = '"'
    · subst hdouble
      exact .escaped ih
    · rw [requoteBody_cons hslash hdouble]
      exact .plain hslash hdouble ih
  | @escaped c r _ ih =>
    rw [requoteBody]
    split
    · next hc =>
      subst hc
      exact .plain (by decide) (by decide) ih
    · exact .escaped ih

/-- In double quotes, what was left open in single quotes is open. -/
theorem unclosed_requoteBody {w : Text} (h : Unclosed '\'' w) : Unclosed '"' (requoteBody w) := by
  rcases h with h | ⟨v, h, rfl⟩
  · exact .inl (sealed_requoteBody h)
  · refine .inr ⟨_, sealed_requoteBody h, ?_⟩
    induction h with
    | nil => rfl
    | @plain c r hslash hquote _ ih =>
      by_cases hdouble : c = '"'
      · subst hdouble
        exact congrArg ('\\' :: '"' :: ·) ih
      · rw [List.cons_append, requoteBody_cons hslash hdouble, ih, requoteBody_cons hslash hdouble,
          List.cons_append]
    | @escaped c r _ ih =>
      rw [List.cons_append, List.cons_append, requoteBody, ih, requoteBody, List.append_assoc]

/-- No carriage return comes to stand behind a backslash in double quotes. -/
theorem escapesReturn_requoteBody {w : Text} (h : escapesReturn w = false) :
    escapesReturn (requoteBody w) = false := by
  fun_induction requoteBody w with
  | case1 c r ih =>
    obtain ⟨hc, hrest⟩ := escapesReturn_escaped h
    split
    · next hsingle =>
      subst hsingle
      exact ih hrest
    · rw [List.cons_append, List.cons_append, escapesReturn, List.nil_append, ih hrest,
        Bool.or_false, beq_eq_false_iff_ne]
      exact hc
  | case2 c r hnot ih =>
    by_cases hslash : c = '\\'
    · -- a backslash that stands last
      subst hslash
      rcases r with _ | ⟨d, r⟩
      · rfl
      · exact absurd rfl (hnot d r rfl)
    · rw [escapesReturn_plain hslash] at h
      split
      · exact ih h
      · rw [List.singleton_append, escapesReturn_plain hslash]
        exact ih h
  | case3 => rfl

/-- What stands in a literal with the given quote, as it stands in double quotes without raw control
characters. -/
def literalBody (q : Char) (body : Text) : Text :=
  (if q = '\'' then requoteBody body else body).flatMap escapeControl

/-- A literal stays one. -/
theorem sealed_literalBody {q : Char} (hq : isCode q = false) {body : Text} (h : Sealed q body)
    (hreturn : escapesReturn body = false) : Sealed '"' (literalBody q body) := by
  rcases eq_quote hq with rfl | rfl
  · exact sealed_flatMap_escapeControl hq h hreturn
  · exact sealed_flatMap_escapeControl rfl (sealed_requoteBody h)
      (escapesReturn_requoteBody hreturn)

/-- An open literal stays open. -/
theorem unclosed_literalBody {q : Char} (hq : isCode q = false) {w : Text} (h : Unclosed q w)
    (hreturn : escapesReturn w = false) : Unclosed '"' (literalBody q w) := by
  rcases eq_quote hq with rfl | rfl
  · exact unclosed_flatMap_escapeControl hq h hreturn
  · exact unclosed_flatMap_escapeControl rfl (unclosed_requoteBody h)
      (escapesReturn_requoteBody hreturn)

/-- The last two stages: double quotes, and no raw control characters in literals. -/
def spellLiterals (t : Text) : Text := escapeControls (requote t)

/-- A character of code is kept. -/
theorem spellLiterals_cons {c : Char} (hc : isCode c = true) (r : Text) :
    spellLiterals (c :: r) = c :: spellLiterals r := by
  rw [spellLiterals, requote_cons hc, escapeControls_cons hc]
  rfl

/-- A literal is spelled in double quotes. -/
theorem spellLiterals_literal {q : Char} (hq : isCode q = false) {body : Text} (h : Sealed q body)
    (r : Text) : spellLiterals (q :: (body ++ q :: r)) =
      '"' :: (literalBody q body ++ '"' :: spellLiterals r) := by
  rw [spellLiterals, requote_literal hq h]
  rcases eq_quote hq with rfl | rfl
  · rw [if_neg (by decide), escapeControls_literal rfl h]
    rfl
  · rw [if_pos rfl, escapeControls_literal rfl (sealed_requoteBody h)]
    rfl

/-- A literal that is not closed is spelled behind a double quote. -/
theorem spellLiterals_unclosed {q : Char} (hq : isCode q = false) {w : Text} (h : Unclosed q w) :
    spellLiterals (q :: w) = '"' :: literalBody q w := by
  rw [spellLiterals, requote_unclosed hq h]
  rcases eq_quote hq with rfl | rfl
  · rw [if_neg (by decide), escapeControls_unclosed rfl h]
    rfl
  · rw [if_pos rfl, escapeControls_unclosed rfl (unclosed_requoteBody h)]
    rfl

/-! ## The steps of the stages -/

/-- Whether a key may start behind a character of code, given whether one may start before it. -/
def keyBehind (k : Bool) (c : Char) : Bool := c = '{' || c = ',' || (k && isBlank c)

/-- `Respells k u v`: with quotes around its keys, double quotes around its literals and no raw
control characters inside them, the text `u` is `v`. The flag `k` says whether a key may start where
`u` starts. -/
inductive Respells : Bool → Text → Text → Prop where
  | nil {k : Bool} : Respells k [] []
  | code {k : Bool} {c : Char} {r v : Text} : isCode c = true →
      (k && Text.isNameStart c && endsKey r) = false → Respells (keyBehind k c) r v →
      Respells k (c :: r) (c :: v)
  | key {name g r v : Text} : isName name = true → (∀ c ∈ g, isBlank c = true) →
    Respells false r v →
      Respells true (name ++ (g ++ ':' :: r)) ('"' :: (name ++ '"' :: (g ++ ':' :: v)))
  | literal {k : Bool} {q : Char} {body r v : Text} : isCode q = false → Sealed q body →
      escapesReturn body = false → Respells false r v →
      Respells k (q :: (body ++ q :: r)) ('"' :: (literalBody q body ++ '"' :: v))
  | unclosed {k : Bool} {q : Char} {w : Text} : isCode q = false → Unclosed q w →
      escapesReturn w = false → Respells k (q :: w) ('"' :: literalBody q w)

/-- Where quoting of keys stands, given whether a key may start. -/
def keysAt (k : Bool) : Keys := if k then .expected else .elsewhere

/-- No key is open where a literal starts. -/
theorem keysAt_ne_inside (k : Bool) : keysAt k ≠ .inside := by
  cases k <;> simp [keysAt]

/-- Past a character of code that starts no key. -/
theorem quoteKeysIn_code {k : Bool} {c : Char} {r : Text} (hc : isCode c = true)
    (hkey : (k && Text.isNameStart c && endsKey r) = false) :
    quoteKeysIn (keysAt k) (c :: r) = c :: quoteKeysIn (keysAt (keyBehind k c)) r := by
  cases k with
  | false =>
    rw [keysAt, if_neg (by decide), quoteKeysIn_elsewhere_cons hc, keysAt, keyBehind,
      Bool.false_and, Bool.or_false]
  | true =>
    rw [Bool.true_and] at hkey
    rw [keysAt, if_pos rfl, quoteKeysIn_expected_cons hc, if_neg (by simp [hkey]), keysAt,
      keyBehind, Bool.true_and]

/-- Code passes through the last two stages. -/
theorem spellLiterals_append {w : Text} (hw : ∀ c ∈ w, isCode c = true) (r : Text) :
    spellLiterals (w ++ r) = w ++ spellLiterals r := by
  induction w with
  | nil => rfl
  | cons c w ih =>
    rw [List.forall_mem_cons] at hw
    rw [List.cons_append, spellLiterals_cons hw.1, ih hw.2, List.cons_append]

/-- The name of a key is the same in double quotes. -/
theorem literalBody_name {name : Text} (h : isName name = true) : literalBody '"' name = name := by
  obtain ⟨-, -, -, -, hparts⟩ := exists_of_isName h
  exact flatMap_escapeControl_of_le fun c hc => (plain_of_isNamePart (hparts c hc)).1

/-- **The steps of the relation are the steps of the stages.** -/
theorem Respells.stages_eq {k : Bool} {u v : Text} (h : Respells k u v) :
    spellLiterals (quoteKeysIn (keysAt k) u) = v := by
  induction h with
  | @nil k => cases k <;> rfl
  | code hc hkey _ ih => rw [quoteKeysIn_code hc hkey, spellLiterals_cons hc, ih]
  | @key name g r v hname hg _ ih =>
    have hkeys : keysAt true = .expected := rfl
    rw [hkeys, quoteKeysIn_name hname hg, spellLiterals_literal rfl (sealed_name hname),
      literalBody_name hname, spellLiterals_append fun c hc => isCode_of_isBlank (hg c hc),
      spellLiterals_cons rfl]
    exact congrArg (fun t => '"' :: (name ++ '"' :: (g ++ ':' :: t))) ih
  | @literal k q body r v hq hbody _ _ ih =>
    rw [quoteKeysIn_quoted (keysAt_ne_inside k) hq hbody, spellLiterals_literal hq hbody]
    exact congrArg (fun t => '"' :: (literalBody q body ++ '"' :: t)) ih
  | @unclosed k q w hq hw _ =>
    rw [quoteKeysIn_unclosed (by cases k <;> rfl) hq hw, spellLiterals_unclosed hq hw]

/-- A bare key ends at the blanks before its colon. -/
theorem exists_key {c : Char} {r : Text} (hc : Text.isNameStart c = true) (hr : endsKey r = true) :
    ∃ name g s, isName name = true ∧ (∀ d ∈ g, isBlank d = true) ∧
      c :: r = name ++ (g ++ ':' :: s) := by
  have hparts : ∀ d ∈ r.takeWhile Text.isNamePart, Text.isNamePart d = true := by
    intro d hd
    exact List.all_eq_true.mp List.all_takeWhile d hd
  have hsplit : r.takeWhile Text.isNamePart ++ r.dropWhile Text.isNamePart = r :=
    List.takeWhile_append_dropWhile
  generalize hrest : r.dropWhile Text.isNamePart = rest at hsplit
  have hblanks : rest.takeWhile isBlank ++ trimStart rest = rest := List.takeWhile_append_dropWhile
  rw [endsKey, hrest] at hr
  rcases htrim : trimStart rest with _ | ⟨d, s⟩
  · rw [htrim] at hr
    cases hr
  · rw [htrim] at hr hblanks
    rw [beq_iff_eq] at hr
    refine ⟨c :: r.takeWhile Text.isNamePart, rest.takeWhile isBlank, s, ?_, ?_, ?_⟩
    · simp only [isName, hc, Bool.true_and]
      exact List.all_eq_true.mpr hparts
    · intro e he
      exact List.all_eq_true.mp List.all_takeWhile e he
    · rw [← hr, hblanks, List.cons_append, hsplit]

/-- Every text of at most `n` characters without a carriage return behind a backslash in a literal
can be gone along in these steps. -/
theorem exists_respells_of_length_le {n : Nat} {u : Text} (hn : u.length ≤ n)
    (hu : Scanned (fun _ => True) (fun _ w => escapesReturn w = false) u) (k : Bool) :
    ∃ v, Respells k u v := by
  induction n generalizing u k with
  | zero =>
    rw [List.length_eq_zero_iff.mp (Nat.le_zero.mp hn)]
    exact ⟨[], .nil⟩
  | succ n ih =>
    cases hu with
    | nil => exact ⟨[], .nil⟩
    | @code c r hc _ hr =>
      rcases hkey : k && Text.isNameStart c && endsKey r with _ | _
      · obtain ⟨v, hv⟩ := ih (Nat.le_of_succ_le_succ hn) hr (keyBehind k c)
        exact ⟨_, .code hc hkey hv⟩
      · simp only [Bool.and_eq_true] at hkey
        obtain ⟨⟨rfl, hstart⟩, hends⟩ := hkey
        obtain ⟨name, g, s, hname, hg, htext⟩ := exists_key hstart hends
        obtain ⟨d, w, hcons, -, hparts⟩ := exists_of_isName hname
        have hcode : ∀ e ∈ name ++ (g ++ [':']), isCode e = true := by
          simp only [List.forall_mem_append]
          exact ⟨fun e he => isCode_of_isNamePart (hparts e he),
            fun e he => isCode_of_isBlank (hg e he), by decide⟩
        have hscanned : Scanned (fun _ => True) (fun _ w => escapesReturn w = false) (c :: r) :=
          .code hc trivial hr
        have hsplit : c :: r = name ++ (g ++ [':']) ++ s := by
          rw [htext]
          simp
        rw [hsplit] at hscanned hn
        rw [List.length_append, List.length_append, List.length_append, List.length_singleton] at hn
        obtain ⟨v, hv⟩ := ih (by omega) (hscanned.of_append hcode) false
        rw [htext]
        exact ⟨_, .key hname hg hv⟩
    | @literal q body r hq hbody hreturn hr =>
      rw [List.length_cons, List.length_append, List.length_cons] at hn
      obtain ⟨v, hv⟩ := ih (by omega) hr false
      exact ⟨_, .literal hq hbody hreturn hv⟩
    | unclosed hq hw hreturn => exact ⟨_, .unclosed hq hw hreturn⟩

/-- Whether a chunk is a literal with a carriage return behind a backslash. -/
def Chunk.escapesReturn : Chunk → Bool
  | .code _ => false
  | .literal _ body _ => ShapedReply.escapesReturn body

/-- Whether a carriage return stands behind a backslash in a literal of a text. -/
def hasEscapedReturn (u : Text) : Bool := (Chunk.split u).any Chunk.escapesReturn

/-- Without a carriage return none stands behind a backslash. -/
theorem escapesReturn_of_not_mem {w : Text} (h : '\r' ∉ w) : escapesReturn w = false := by
  fun_induction escapesReturn w with
  | case1 c r ih =>
    simp only [List.mem_cons, not_or] at h
    rw [ih h.2.2, Bool.or_false, beq_eq_false_iff_ne]
    exact Ne.symm h.2.1
  | case2 c r _ ih => exact ih fun hr => h (List.mem_cons_of_mem c hr)
  | case3 => rfl

/-- A text without carriage returns has none in its literals. -/
theorem hasEscapedReturn_of_not_mem {u : Text} (h : '\r' ∉ u) : hasEscapedReturn u = false := by
  rw [hasEscapedReturn, List.any_eq_false]
  intro chunk hchunk
  cases chunk with
  | code t => exact Bool.false_ne_true
  | literal q body closed =>
    have hbody : '\r' ∉ body := by
      intro hmem
      apply h
      rw [← Chunk.join_split u]
      exact List.mem_flatMap.mpr ⟨_, hchunk, List.mem_append_left _ (List.mem_cons_of_mem q hmem)⟩
    rw [Chunk.escapesReturn, escapesReturn_of_not_mem hbody]
    exact Bool.false_ne_true

/-- The literals of a text are those that a scan sees. -/
theorem scanned_of_hasEscapedReturn {u : Text} (h : hasEscapedReturn u = false) :
    Scanned (fun _ => True) (fun _ w => escapesReturn w = false) u := by
  rw [hasEscapedReturn] at h
  induction scanned u with
  | nil => exact .nil
  | @code c r hc _ _ ih =>
    have hany : ∀ cs, (Chunk.consCode c cs).any Chunk.escapesReturn =
        cs.any Chunk.escapesReturn := by
      intro cs
      rcases cs with _ | ⟨_ | _, _⟩ <;> rfl
    rw [Chunk.split_cons hc, hany] at h
    exact .code hc trivial (ih h)
  | literal hq hbody _ _ ih =>
    rw [Chunk.split_literal hq hbody, List.any_cons, Bool.or_eq_false_iff] at h
    exact .literal hq hbody h.1 (ih h.2)
  | unclosed hq hw _ =>
    rw [Chunk.split_unclosed hq hw, List.any_cons, Bool.or_eq_false_iff] at h
    exact .unclosed hq hw h.1

/-- **The stages go along every text without a carriage return behind a backslash in a literal.** -/
theorem exists_respells {u : Text} (h : hasEscapedReturn u = false) (k : Bool) :
    ∃ v, Respells k u v :=
  exists_respells_of_length_le (Nat.le_refl u.length) (scanned_of_hasEscapedReturn h) k

/-! ## Commas -/

/-- A quote is no blank. -/
theorem isBlank_of_not_isCode {q : Char} (hq : isCode q = false) : isBlank q = false := by
  rcases eq_quote hq with rfl | rfl <;> rfl

/-- Looking ahead for a closing bracket, one character at a time. -/
theorem closesNext_cons (c : Char) (r : Text) :
    closesNext (c :: r) = if isBlank c then closesNext r else c == '}' || c == ']' := by
  unfold closesNext
  rcases hblank : isBlank c with _ | _
  · rw [trimStart_cons hblank]
    rfl
  · rw [trimStart_cons_of_blank hblank]
    rfl

/-- Where a closing bracket comes next, it stands behind blanks. -/
theorem exists_closer {t : Text} (h : closesNext t = true) :
    ∃ g c s, t = g ++ c :: s ∧ (∀ d ∈ g, isBlank d = true) ∧ (c = '}' ∨ c = ']') := by
  have hsplit : t.takeWhile isBlank ++ trimStart t = t := List.takeWhile_append_dropWhile
  rw [closesNext] at h
  rcases htrim : trimStart t with _ | ⟨c, s⟩
  · rw [htrim] at h
    cases h
  · rw [htrim] at h hsplit
    refine ⟨_, c, s, hsplit.symm, fun d hd => List.all_eq_true.mp List.all_takeWhile d hd, ?_⟩
    rwa [Bool.or_eq_true, beq_iff_eq, beq_iff_eq] at h

/-- Where a closing bracket comes next, no colon does. -/
theorem endsKey_of_closesNext {t : Text} (h : closesNext t = true) : endsKey t = false := by
  obtain ⟨g, c, s, rfl, hg, hc⟩ := exists_closer h
  exact endsKey_behind hg (by rcases hc with rfl | rfl <;> decide) s

/-- What comes first behind the blanks stays, unless it is a comma that goes. -/
theorem next_dropTrailingCommas (t : Text) :
    (trimStart (dropTrailingCommas t)).head? = (trimStart t).head? ∨
      (trimStart t).head? = some ',' ∧ closesNext (dropTrailingCommas t) = true := by
  have hfirst : ∀ {c : Char} (s s' : Text), isBlank c = false →
      (trimStart (c :: s)).head? = (trimStart (c :: s')).head? := by
    intro c s s' hc
    rw [trimStart_cons hc, trimStart_cons hc]
    rfl
  induction scanned t with
  | nil => exact .inl rfl
  | @code c r hc _ _ ih =>
    rw [dropTrailingCommas_cons hc]
    split
    · next hdrop =>
      simp only [Bool.and_eq_true, decide_eq_true_eq] at hdrop
      obtain ⟨rfl, hcloses⟩ := hdrop
      refine .inr ⟨rfl, ?_⟩
      rcases ih with hsame | ⟨-, hcloses'⟩
      · rwa [closesNext_eq, hsame, ← closesNext_eq]
      · exact hcloses'
    · rcases hblank : isBlank c with _ | _
      · exact .inl (hfirst _ _ hblank)
      · rw [trimStart_cons_of_blank hblank, trimStart_cons_of_blank hblank, closesNext_cons, hblank,
          if_pos rfl]
        exact ih
  | literal hq hbody _ _ _ =>
    rw [dropTrailingCommas_literal hq hbody]
    exact .inl (hfirst _ _ (isBlank_of_not_isCode hq))
  | unclosed hq hw _ =>
    rw [dropTrailingCommas_unclosed hq hw]
    exact .inl rfl

/-- A closing bracket that comes next still does. -/
theorem closesNext_dropTrailingCommas {t : Text} (h : closesNext t = true) :
    closesNext (dropTrailingCommas t) = true := by
  rcases next_dropTrailingCommas t with hsame | ⟨-, hcloses⟩
  · rwa [closesNext_eq, hsame, ← closesNext_eq]
  · exact hcloses

/-- The text behind a character that is no part of a key ends a key if a colon comes first. -/
theorem endsKey_cons {c : Char} (hc : Text.isNamePart c = false) (r : Text) :
    endsKey (c :: r) = (trimStart (c :: r)).head?.any (· == ':') := by
  rw [endsKey_eq, List.dropWhile_cons_of_neg (by simp [hc])]

/-- A colon that comes first still does, and no other comes to be first. -/
theorem colon_dropTrailingCommas (t : Text) :
    (trimStart (dropTrailingCommas t)).head?.any (· == ':') =
    (trimStart t).head?.any (· == ':') := by
  rcases next_dropTrailingCommas t with hsame | ⟨hcomma, hcloses⟩
  · rw [hsame]
  · obtain ⟨g, c, s, htext, hg, hc⟩ := exists_closer hcloses
    rw [hcomma, htext, trimStart_append hg]
    rcases hc with rfl | rfl <;> rfl

/-- Dropping commas does not change whether a key ends. -/
theorem endsKey_dropTrailingCommas (t : Text) : endsKey (dropTrailingCommas t) = endsKey t := by
  -- a text that keeps its first character, no part of a key, is judged by what comes first
  have hkept : ∀ {c : Char} {r s : Text}, Text.isNamePart c = false →
    dropTrailingCommas (c :: r) = c :: s →
      endsKey (dropTrailingCommas (c :: r)) = endsKey (c :: r) := by
    intro c r s hpart hD
    rw [endsKey_cons hpart, ← colon_dropTrailingCommas, hD, endsKey_cons hpart]
  have hquote : ∀ {q : Char}, isCode q = false → Text.isNamePart q = false := by
    intro q hq
    rcases eq_quote hq with rfl | rfl <;> decide
  induction scanned t with
  | nil => rfl
  | @code c r hc _ _ ih =>
    rcases hpart : Text.isNamePart c with _ | _
    · by_cases hdrop : (decide (c = ',') && closesNext r) = true
      · rw [dropTrailingCommas_cons hc, if_pos hdrop]
        simp only [Bool.and_eq_true, decide_eq_true_eq] at hdrop
        obtain ⟨rfl, hcloses⟩ := hdrop
        rw [endsKey_of_closesNext (closesNext_dropTrailingCommas hcloses)]
        rfl
      · exact hkept hpart (by rw [dropTrailingCommas_cons hc, if_neg hdrop])
    · have hcomma : c ≠ ',' := (plain_of_isNamePart hpart).2.2.2.2.1
      have hskip : ∀ s, endsKey (c :: s) = endsKey s :=
        endsKey_append_parts (w := [c]) (by simpa using hpart)
      rw [dropTrailingCommas_cons hc, if_neg (by simp [hcomma]), hskip, ih, hskip]
  | literal hq hbody _ _ _ => exact hkept (hquote hq) (dropTrailingCommas_literal hq hbody _)
  | unclosed hq hw _ => exact hkept (hquote hq) (dropTrailingCommas_unclosed hq hw)

/-- A character that starts a name is no blank and no closing bracket. -/
theorem closesNext_name {name : Text} (h : isName name = true) (r : Text) :
    closesNext (name ++ r) = false := by
  obtain ⟨c, t, rfl, -, hparts⟩ := exists_of_isName h
  have hc := hparts c List.mem_cons_self
  apply closesNext_cons_of_ne (plain_of_isNamePart hc).2.2.2.2.2.2
  · rintro rfl
    exact absurd hc (by decide)
  · rintro rfl
    exact absurd hc (by decide)

/-- No closing bracket comes next before a quote. -/
theorem closesNext_quote {q : Char} (hq : isCode q = false) (r : Text) :
    closesNext (q :: r) = false := by
  rcases eq_quote hq with rfl | rfl <;> rfl

/-- The stages change nothing about which closing bracket comes next. -/
theorem Respells.closesNext_eq {k : Bool} {u v : Text} (h : Respells k u v) :
    closesNext v = closesNext u := by
  induction h with
  | nil => rfl
  | @code k c r v _ _ _ ih => rw [closesNext_cons, closesNext_cons, ih]
  | key hname _ _ _ =>
    rw [closesNext_name hname]
    rfl
  | literal hq _ _ _ _ =>
    rw [closesNext_quote hq]
    rfl
  | unclosed hq _ _ =>
    rw [closesNext_quote hq]
    rfl

/-- Before a closing bracket it does not matter whether a key may start. -/
theorem Respells.of_closesNext {k : Bool} {u v : Text} (h : Respells k u v)
    (hu : closesNext u = true) (k' : Bool) : Respells k' u v := by
  induction h generalizing k' with
  | nil => cases hu
  | @code k c r v hc _ hr ih =>
    rw [closesNext_cons] at hu
    rcases hblank : isBlank c with _ | _
    · rw [hblank, if_neg (by decide), Bool.or_eq_true, beq_iff_eq, beq_iff_eq] at hu
      have hbehind : ∀ k, keyBehind k c = false ∧ Text.isNameStart c = false := by
        rcases hu with rfl | rfl <;> decide
      refine .code hc (by rw [(hbehind k').2, Bool.and_false, Bool.false_and]) ?_
      rwa [(hbehind k').1, ← (hbehind k).1]
    · rw [hblank, if_pos rfl] at hu
      exact .code hc (by rw [isNameStart_of_isBlank hblank, Bool.and_false, Bool.false_and])
        (ih hu _)
  | key hname _ _ _ =>
    rw [closesNext_name hname] at hu
    cases hu
  | literal hq hbody hreturn hr _ => exact .literal hq hbody hreturn hr
  | unclosed hq hw hreturn => exact .unclosed hq hw hreturn

/-- **Dropping the commas of a text drops the same commas from what the stages make of it.** -/
theorem Respells.dropTrailingCommas {k : Bool} {u v : Text} (h : Respells k u v) :
    Respells k (dropTrailingCommas u) (dropTrailingCommas v) := by
  induction h with
  | nil => exact .nil
  | @code k c r v hc hkey hr ih =>
    rw [dropTrailingCommas_cons hc, dropTrailingCommas_cons hc, hr.closesNext_eq]
    split
    · next hdrop =>
      rw [Bool.and_eq_true] at hdrop
      exact ih.of_closesNext (closesNext_dropTrailingCommas hdrop.2) k
    · refine .code hc ?_ ih
      rwa [endsKey_dropTrailingCommas]
  | @key name g r v hname hg _ ih =>
    obtain ⟨-, -, -, -, hparts⟩ := exists_of_isName hname
    have hparts' := passesCode_dropTrailingCommas.append fun c hc =>
      code_of_isNamePart (hparts c hc)
    have hbehind : ∀ s, Mend.dropTrailingCommas (g ++ ':' :: s) =
        g ++ ':' :: Mend.dropTrailingCommas s := by
      intro s
      rw [passesCode_dropTrailingCommas.append fun c hc => code_of_isBlank (hg c hc),
        dropTrailingCommas_cons rfl]
      rfl
    rw [dropTrailingCommas_literal rfl (sealed_name hname), hparts', hbehind, hbehind]
    exact .key hname hg ih
  | @literal k q body r v hq hbody hreturn _ ih =>
    rw [dropTrailingCommas_literal hq hbody,
      dropTrailingCommas_literal rfl (sealed_literalBody hq hbody hreturn)]
    exact .literal hq hbody hreturn ih
  | unclosed hq hw hreturn =>
    rw [dropTrailingCommas_unclosed hq hw,
      dropTrailingCommas_unclosed rfl (unclosed_literalBody hq hw hreturn)]
    exact .unclosed hq hw hreturn

/-- What the stages make of a text has double quotes only. -/
theorem Respells.scanned {k : Bool} {u v : Text} (h : Respells k u v) :
    Scanned (fun _ => True) (fun q _ => q = '"') v := by
  induction h with
  | nil => exact .nil
  | code hc _ _ ih => exact .code hc trivial ih
  | key hname hg _ ih =>
    have hcolon := Scanned.code (c := ':') rfl trivial ih
    exact .literal rfl (sealed_name hname) rfl
      (hcolon.append_code fun c hc => ⟨isCode_of_isBlank (hg c hc), trivial⟩)
  | literal hq hbody hreturn _ ih => exact .literal rfl (sealed_literalBody hq hbody hreturn) rfl ih
  | unclosed hq hw hreturn => exact .unclosed rfl (unclosed_literalBody hq hw hreturn) rfl

/-! ## The end of a text -/

/-- Blanks behind a text are no commas. -/
theorem dropTrailingCommas_append_blanks (t : Text) {g : Text} (hg : ∀ c ∈ g, isBlank c = true) :
    dropTrailingCommas (t ++ g) = dropTrailingCommas t ++ g := by
  have hcloses : ∀ r, closesNext (r ++ g) = closesNext r := by
    intro r
    rw [closesNext_eq, head?_trimStart_append r hg, ← closesNext_eq]
  induction scanned t with
  | nil =>
    have := passesCode_dropTrailingCommas.append (fun c hc => code_of_isBlank (hg c hc)) []
    rwa [List.append_nil, show dropTrailingCommas [] = [] from rfl, List.append_nil] at this
  | @code c r hc _ _ ih =>
    rw [List.cons_append, dropTrailingCommas_cons hc, dropTrailingCommas_cons hc, hcloses, ih]
    split <;> rfl
  | @literal q body r hq hbody _ _ ih =>
    rw [List.cons_append, List.append_assoc, List.cons_append, dropTrailingCommas_literal hq hbody,
      ih, dropTrailingCommas_literal hq hbody]
    simp
  | unclosed hq hw _ =>
    rw [List.cons_append, dropTrailingCommas_unclosed hq (hw.append_blanks hq hg),
      dropTrailingCommas_unclosed hq hw, List.cons_append]

/-- The last character stays. -/
theorem getLast?_dropTrailingCommas (t : Text) : (dropTrailingCommas t).getLast? = t.getLast? := by
  induction scanned t with
  | nil => rfl
  | @code c r hc _ _ ih =>
    rw [dropTrailingCommas_cons hc]
    split
    · next hdrop =>
      -- a comma goes only if something follows it
      rcases r with _ | ⟨d, r⟩
      · rw [Bool.and_eq_true] at hdrop
        cases hdrop.2
      · rw [ih, List.getLast?_cons_cons]
    · rw [List.getLast?_cons, ih, ← List.getLast?_cons]
  | @literal q body r hq hbody _ _ ih =>
    rw [dropTrailingCommas_literal hq hbody, List.getLast?_cons, List.getLast?_append,
      List.getLast?_cons, ih, List.getLast?_cons, List.getLast?_append, List.getLast?_cons]
  | unclosed hq hw _ => rw [dropTrailingCommas_unclosed hq hw]

end ShapedReply
