import ShapedReply.Proofs.Mending.Strict

/-!
# What strict text is made of

Outside its literals strict text has few characters: those of words, brackets, commas, colons and
four blanks. Its literals have double quotes and no raw control characters. `Neat` says this of a
text, as a scan sees it.

* `neat_text`: **a strict tree is neat.**
* `Neat.quote_mem`: a character that code cannot have stands in a literal, so a quote comes before
  the next control character.
-/

namespace ShapedReply

open Text Reader Spelling Mend

/-- The characters of strict text outside its literals. -/
def codeParts : List Char := wordParts ++ ['[', ']', '{', '}', ',', ':', ' ', '\t', '\n', '\r']

/-- Text with the characters of strict text, in code and in literals. -/
abbrev Neat : Text → Prop :=
  Scanned (· ∈ codeParts) fun q body => q = '"' ∧ ∀ c ∈ body, 0x20 ≤ c.toNat

/-! ## Strict trees -/

/-- `KeepsNeat s`: neat text with `s` before it is neat. -/
def KeepsNeat (s : Text) : Prop :=
  ∀ r : Text, Neat r → Neat (s ++ r)

/-- Texts that are neat on their own are neat one behind the other. -/
theorem KeepsNeat.append {s t : Text} (hs : KeepsNeat s) (ht : KeepsNeat t) :
    KeepsNeat (s ++ t) := by
  intro r hr
  rw [List.append_assoc]
  exact hs _ (ht r hr)

/-- The characters of strict code open no literals. -/
theorem codeParts_code : ∀ c ∈ codeParts, isCode c = true := by decide

/-- Code is neat. -/
theorem keepsNeat_code {s : Text} (hs : ∀ c ∈ s, c ∈ codeParts) : KeepsNeat s := by
  intro r hr
  exact hr.append_code fun c hc => ⟨codeParts_code c (hs c hc), hs c hc⟩

/-- A gap of blanks is neat. -/
theorem keepsNeat_gap (g : Gap) : KeepsNeat g.strict := by
  apply keepsNeat_code
  intro c hc
  rcases eq_of_isValueBlank (g.blank c hc) with rfl | rfl | rfl | rfl <;> decide

/-- A string in quotes is neat. -/
theorem keepsNeat_string (s : Quoted) : KeepsNeat ('"' :: (s.strictBody ++ ['"'])) := by
  intro r hr
  have hlow : ∀ c ∈ s.strictBody, 0x20 ≤ c.toNat := by
    intro c hc
    obtain ⟨g, -, hc⟩ := List.mem_flatMap.mp hc
    exact le_of_mem_strict g.1 c hc
  have := Scanned.literal rfl (sealed_strictBody s) ⟨rfl, hlow⟩ hr
  simpa using this

/-- A word is neat. -/
theorem keepsNeat_word (w : Word) : KeepsNeat w.text := by
  apply keepsNeat_code
  exact fun c hc => List.mem_append_left _ (mem_wordParts w c hc)

/-- An opening bracket is neat. -/
theorem keepsNeat_opener (k : Container) : KeepsNeat [k.opener] := by
  apply keepsNeat_code
  cases k <;> decide

/-- A closing bracket is neat. -/
theorem keepsNeat_closer (k : Container) : KeepsNeat [k.closer] := by
  apply keepsNeat_code
  cases k <;> decide

/-- What stands before the item of an entry is neat. -/
theorem keepsNeat_head {k : Container} (head : Head k) : KeepsNeat (head.text .strict) := by
  cases head with
  | item before => exact keepsNeat_gap before
  | member before key beforeColon afterColon =>
    have hcolon : KeepsNeat [':'] := keepsNeat_code (by decide)
    rw [Head.text_strict_member]
    exact (keepsNeat_gap before).append <| (keepsNeat_string key.quoted).append <|
      (keepsNeat_gap beforeColon).append (hcolon.append (keepsNeat_gap afterColon))

mutual

/-- Strict text is neat. -/
theorem keepsNeat_text : (T : Tree) → KeepsNeat (T.text .strict)
  | .word w => by
    rw [Tree.text]
    exact keepsNeat_word w
  | .string s => by
    rw [Tree.text]
    exact keepsNeat_string s
  | .empty k inside => by
    rw [Tree.text]
    exact (keepsNeat_opener k).append ((keepsNeat_gap inside).append (keepsNeat_closer k))
  | .filled k es => by
    rw [Tree.text]
    exact (keepsNeat_opener k).append (keepsNeat_entries es)

/-- The strict text of entries is neat. -/
theorem keepsNeat_entries {k : Container} : (es : Entries k) → KeepsNeat (es.text .strict)
  | .last head item gap trailing => by
    rw [Entries.text_strict_last]
    exact (keepsNeat_head head).append <| (keepsNeat_text item).append <|
      (keepsNeat_gap gap).append (keepsNeat_closer k)
  | .more head item gap rest => by
    have hcomma : KeepsNeat [','] := keepsNeat_code (by decide)
    rw [Entries.text_strict_more]
    exact (keepsNeat_head head).append <| (keepsNeat_text item).append <|
      (keepsNeat_gap gap).append <| hcomma.append (keepsNeat_entries rest)

end

/-- **A strict tree is neat.** -/
theorem neat_text (T : Tree) : Neat (T.text .strict) := by
  have := keepsNeat_text T [] .nil
  rwa [List.append_nil] at this

/-! ## Characters that code cannot have -/

/-- Where a text is cut in two ways, at two characters, one of the cuts comes first. -/
theorem append_cons_cases {s r a b : Text} {q c : Char} (hne : c ≠ q)
    (h : s ++ q :: r = a ++ c :: b) :
    (∃ m, s = a ++ c :: m ∧ b = m ++ q :: r) ∨ ∃ m, a = s ++ q :: m ∧ r = m ++ c :: b := by
  rcases List.append_eq_append_iff.mp h with ⟨m, ha, hr⟩ | ⟨m, hs, hb⟩
  · rcases List.cons_eq_append_iff.mp hr with ⟨-, hcons⟩ | ⟨k, rfl, hk⟩
    · exact absurd (List.cons.inj hcons).1 hne
    · exact .inr ⟨k, ha, hk⟩
  · rcases List.cons_eq_append_iff.mp hb with ⟨-, hcons⟩ | ⟨k, rfl, hk⟩
    · exact absurd (List.cons.inj hcons).1.symm hne
    · exact .inl ⟨k, hs, hk⟩

/-- **Between a character that code cannot have and a control character stands a quote.** -/
theorem Neat.quote_mem {t a w b : Text} {c d : Char} (h : Neat t) (ht : t = a ++ c :: (w ++ d :: b))
    (hquote : c ≠ '"') (hc : c ∉ codeParts) (hd : d.toNat < 0x20) : '"' ∈ w := by
  have hd' : '"' ≠ d := by
    rintro rfl
    exact absurd hd (by decide)
  induction h generalizing a with
  | nil => simp at ht
  | @code e r _ he _ ih =>
    rcases List.cons_eq_append_iff.mp ht with ⟨-, hcons⟩ | ⟨a', -, hr⟩
    · rw [(List.cons.inj hcons).1] at hc
      exact absurd he hc
    · exact ih hr
  | @literal q body r _ _ hbody _ ih =>
    obtain ⟨rfl, hlow⟩ := hbody
    rcases List.cons_eq_append_iff.mp ht with ⟨-, hcons⟩ | ⟨a', -, hrest⟩
    · exact absurd (List.cons.inj hcons).1 hquote
    rcases append_cons_cases hquote hrest with ⟨m, hm, htail⟩ | ⟨m, -, hr⟩
    · -- the character is in this literal, so the control character is behind it
      rcases append_cons_cases hd' htail with ⟨k, rfl, -⟩ | ⟨k, rfl, -⟩
      · exact List.mem_append_right _ List.mem_cons_self
      · have := hlow d (by simp [hm])
        omega
    · exact ih hr
  | @unclosed q u _ _ hbody =>
    obtain ⟨rfl, hlow⟩ := hbody
    rcases List.cons_eq_append_iff.mp ht with ⟨-, hcons⟩ | ⟨a', -, hu⟩
    · exact absurd (List.cons.inj hcons).1 hquote
    · have := hlow d (by simp [hu])
      omega

end ShapedReply
