import Mathlib
import ChainIR.Proofs.Binary64.Numeral
import ChainIR.Proofs.Token.Word
import ChainIR.Proofs.Types.Resolution

/-! # The classes of written words

The token of a word has the class that the mark in front of it says, and what stands behind the
mark as its value; a plain word is its own value. Numerals and the names of plain types are plain
words, and no line has an end token. -/

namespace ChainIR

namespace Token

/-- A fragment is not read as the end. -/
theorem kind_ne_eof_of_ofWord? {line : Nat} {fragment : List Char} {token : Token}
    (h : ofWord? line fragment = some token) : token.kind ≠ .eof := by
  cases fragment with
  | nil => simp [ofWord?] at h
  | cons first rest =>
    rw [ofWord?] at h
    split_ifs at h <;> · obtain rfl := Option.some.inj h; simp

/-- Fragments are not read as the end. -/
theorem kind_ne_eof_of_ofFragments {line : Nat} {fragments : List (List Char)}
    {pending : Option QuotedText} {tokens : List Token}
    (h : ofFragments line pending fragments = .ok tokens) : ∀ token ∈ tokens, token.kind ≠ .eof := by
  induction fragments generalizing pending tokens with
  | nil =>
    cases pending with
    | none =>
      obtain rfl : [] = tokens := by simpa [ofFragments] using h
      exact fun _ hmem => absurd hmem List.not_mem_nil
    | some literal => simp [ofFragments] at h
  | cons fragment rest ih =>
    -- whatever token a fragment ends, the others are those of the rest
    have hcons : ∀ {first : Token}, first.kind ≠ .eof →
        (ofFragments line none rest).map (first :: ·) = .ok tokens →
        ∀ token ∈ tokens, token.kind ≠ .eof := by
      intro first hfirst hrest
      obtain ⟨others, hothers, rfl⟩ := exists_of_map_cons hrest
      exact List.forall_mem_cons.2 ⟨hfirst, ih hothers⟩
    rw [ofFragments] at h
    split at h
    · next literal _ =>
      split at h
      · refine hcons ?_ h
        rw [QuotedText.token, QuotedText.kind]
        split <;> simp
      · exact ih h
    · split at h
      · next token htoken => exact hcons (kind_ne_eof_of_ofWord? htoken) h
      · exact ih h

/-- No token of a line is the end. -/
theorem kind_ne_eof_of_ofLine {number : Nat} {line : List Char} {tokens : List Token}
    (h : ofLine number line = .ok tokens) : ∀ token ∈ tokens, token.kind ≠ .eof :=
  kind_ne_eof_of_ofFragments h

end Token

/-! ## Marked and plain words -/

/-- A text without blanks that can name a jump target: it starts like a word or a number. -/
def IsTarget (text : String) : Prop :=
  Unbroken text ∧ ∃ c ∈ text.toList.head?, c.isDigit ∨ c = '.' ∨ c.isAlpha ∨ c = '_'

instance (text : String) : Decidable (IsTarget text) :=
  decidable_of_iff (Unbroken text ∧
      text.toList.head?.any fun c => c.isDigit || c == '.' || c.isAlpha || c == '_')
    (and_congr_right fun _ => by simp [Option.any_eq_true, or_assoc])

/-- A text with a first character. -/
theorem exists_toList_eq_cons {text : String} {property : Char → Prop}
    (h : ∃ c ∈ text.toList.head?, property c) :
    ∃ c rest, text.toList = c :: rest ∧ property c := by
  obtain ⟨c, hc, hproperty⟩ := h
  cases htext : text.toList with
  | nil => simp [htext] at hc
  | cons first rest =>
    obtain rfl : first = c := by simpa [htext] using hc
    exact ⟨first, rest, rfl, hproperty⟩

/-- A jump target is a plain text. -/
theorem IsTarget.plain {text : String} (h : IsTarget text) : Plain text := by
  obtain ⟨hunbroken, c, hc, hstart⟩ := h
  refine ⟨hunbroken, c, hc, fun hmark => ?_⟩
  fin_cases hmark <;> exact absurd hstart (by decide)

namespace Word

@[simp] theorem token_register (line : Nat) (name : String) :
    (bare ("%" ++ name)).token line = ⟨.register, name, line⟩ := by
  simp [token, Token.ofWord?]

@[simp] theorem token_block (line : Nat) (name : String) :
    (bare ("@" ++ name)).token line = ⟨.block, name, line⟩ := by
  simp [token, Token.ofWord?]

@[simp] theorem token_global (line : Nat) (name : String) :
    (bare ("$" ++ name)).token line = ⟨.global, name, line⟩ := by
  simp [token, Token.ofWord?]

/-- A plain word is its own value. -/
theorem token_plain {text : String} (h : Plain text) (line : Nat) :
    ∃ kind, kind ∈ [TokenKind.number, .identifier, .operator] ∧
      (bare text).token line = ⟨kind, text, line⟩ := by
  obtain ⟨c, rest, htext, hc⟩ := exists_toList_eq_cons h.2
  obtain ⟨hregister, hblock, hglobal⟩ : c ≠ '%' ∧ c ≠ '@' ∧ c ≠ '$' := by
    refine ⟨?_, ?_, ?_⟩ <;> · rintro rfl; exact hc (by decide)
  have hvalue : String.ofList (c :: rest) = text := by rw [← htext, String.ofList_toList]
  rw [token, htext, Token.ofWord?, if_neg hregister, if_neg hblock, if_neg hglobal, hvalue]
  split_ifs
  · exact ⟨.number, by decide, rfl⟩
  · exact ⟨.identifier, by decide, rfl⟩
  · exact ⟨.operator, by decide, rfl⟩

/-- A jump target is read as one. -/
theorem token_target {text : String} (h : IsTarget text) (line : Nat) :
    ∃ kind, kind ∈ [TokenKind.number, .identifier] ∧
      (bare text).token line = ⟨kind, text, line⟩ := by
  obtain ⟨c, rest, htext, hc⟩ := exists_toList_eq_cons h.2
  obtain ⟨hregister, hblock, hglobal⟩ : c ≠ '%' ∧ c ≠ '@' ∧ c ≠ '$' := by
    refine ⟨?_, ?_, ?_⟩ <;> · rintro rfl; exact absurd hc (by decide)
  have hvalue : String.ofList (c :: rest) = text := by rw [← htext, String.ofList_toList]
  rw [token, htext, Token.ofWord?, if_neg hregister, if_neg hblock, if_neg hglobal, hvalue]
  split_ifs
  · exact ⟨.number, by decide, rfl⟩
  · exact ⟨.identifier, by decide, rfl⟩
  · tauto

end Word

/-! ## Numerals and type names -/

/-- A digit is no blank. -/
theorem isBlank_of_isDigit {c : Char} (h : c.isDigit) : isBlank c = false := by
  rw [← Bool.not_eq_true]
  intro hblank
  obtain (((rfl | rfl) | rfl) | rfl) : ((c = ' ' ∨ c = '\t') ∨ c = '\n') ∨ c = '\r' := by
    simpa [isBlank] using hblank
  all_goals exact absurd h (by decide)

/-- A digit is no mark. -/
theorem not_mem_marks_of_isDigit {c : Char} (h : c.isDigit) : c ∉ marks := by
  intro hmark
  fin_cases hmark <;> exact absurd h (by decide)

/-- The text of a number is a plain word. -/
theorem Binary64.plain_text (value : Binary64) : Plain (String.ofList value.text) := by
  have hletters : ∀ c ∈ letters, isBlank c = false ∧ c ∉ marks := by
    intro c hc
    fin_cases hc <;> decide
  refine ⟨fun c hc => ?_, ?_⟩
  · rw [String.toList_ofList] at hc
    exact (mem_text hc).elim isBlank_of_isDigit fun hletter => (hletters c hletter).1
  · obtain ⟨c, rest, htext⟩ := List.exists_cons_of_ne_nil (text_ne_nil value)
    rw [String.toList_ofList, htext]
    have hc : c ∈ value.text := htext ▸ .head rest
    exact ⟨c, rfl, (mem_text hc).elim not_mem_marks_of_isDigit fun hletter =>
      (hletters c hletter).2⟩

namespace TypeTree

/-- The name of a plain type is a plain word. -/
theorem IsPlain.plain_name {tree : TypeTree} (h : tree.IsPlain) : Plain tree.name := by
  induction h with
  | @array element _ size ih =>
    rw [name, Plain, Unbroken, toList_array]
    refine ⟨fun c hc => ?_, ?_⟩
    · rcases List.mem_append.1 hc with hc | hc
      · exact ih.1 c hc
      rcases List.mem_cons.1 hc with rfl | hc
      · rfl
      rcases List.mem_append.1 hc with hc | hc
      · exact isBlank_of_isDigit (Nat.isDigit_of_mem_toDigits (by decide) (by decide) hc)
      · exact List.mem_singleton.1 hc ▸ rfl
    · obtain ⟨c, rest, htext, hc⟩ := exists_toList_eq_cons ih.2
      rw [htext]
      exact ⟨c, rfl, hc⟩
  | _ =>
    rw [name]
    decide

/-- The name of a plain type is not the mark of variadic functions. -/
theorem IsPlain.name_ne_question {tree : TypeTree} (h : tree.IsPlain) : tree.name ≠ "?" := by
  intro hname
  have hlast := getLast?_name tree
  rw [hname] at hlast
  have hending : '?' = tree.ending := Option.some.inj hlast
  cases h <;> exact absurd hending (by simp [ending])

end TypeTree

end ChainIR
