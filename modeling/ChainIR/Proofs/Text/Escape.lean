import Mathlib
import ChainIR.Token.Line

/-! # Escape sequences undone

Decoding undoes encoding (`decode_encode`). In an encoded text the number of backslashes in front
of a character says what the character is there for (`encode_cut`): behind an odd number it is an
escape letter, behind an even number it stands for itself or starts a sequence. So an encoded text
never looks like a closed literal (`not_endsWithQuote_encode`), and the quote that is put behind it
closes it (`endsWithQuote_encode`). A space is encoded as itself, so that an encoded text is cut at
its spaces where the text is (`splitOn_encode`). -/

namespace ChainIR.Escape

/-! ## The table -/

/-- An escape letter stands for the character that the table has beside it. -/
theorem characterOf?_eq_some {letter c : Char} :
    characterOf? letter = some c ↔ (letter, c) ∈ sequences := by
  constructor
  · intro h
    obtain ⟨sequence, hfind, rfl⟩ := Option.map_eq_some_iff.1 h
    have hletter : sequence.1 = letter := by simpa using List.find?_some hfind
    rw [← hletter]
    exact List.mem_of_find?_eq_some hfind
  · intro h
    have hall : ∀ sequence ∈ sequences, characterOf? sequence.1 = some sequence.2 := by decide
    exact hall _ h

/-- A character has the escape letter that the table has beside it. -/
theorem letterOf?_eq_some {c letter : Char} :
    letterOf? c = some letter ↔ (letter, c) ∈ sequences := by
  constructor
  · intro h
    obtain ⟨sequence, hfind, rfl⟩ := Option.map_eq_some_iff.1 h
    have hcharacter : sequence.2 = c := by simpa using List.find?_some hfind
    rw [← hcharacter]
    exact List.mem_of_find?_eq_some hfind
  · intro h
    have hall : ∀ sequence ∈ sequences, letterOf? sequence.2 = some sequence.1 := by decide
    exact hall _ h

/-- A character has an escape letter exactly if the letter stands for it. -/
theorem characterOf?_of_letterOf? {c letter : Char} (h : letterOf? c = some letter) :
    characterOf? letter = some c :=
  characterOf?_eq_some.2 (letterOf?_eq_some.1 h)

/-- An escape letter is a character without escape letter, a backslash or a quote. -/
theorem letterOf?_letter {letter c : Char} (h : characterOf? letter = some c) :
    letterOf? letter = none ∨ letter = '\\' ∨ letter = '"' := by
  have hall : ∀ sequence ∈ sequences, letterOf? sequence.1 = none ∨ sequence.1 = '\\' ∨
      sequence.1 = '"' := by decide
  exact hall _ (characterOf?_eq_some.1 h)

/-- A character without escape letter is no backslash. -/
theorem ne_backslash {c : Char} (h : letterOf? c = none) : c ≠ '\\' := by
  rintro rfl
  exact absurd h (by decide)

/-! ## Decoding undoes encoding -/

@[simp] theorem toList_encodeString (text : String) :
    (encodeString text).toList = encode text.toList :=
  String.toList_ofList

@[simp] theorem toList_decodeString (text : String) :
    (decodeString text).toList = decode text.toList :=
  String.toList_ofList

/-- Texts are encoded part by part. -/
theorem encode_append (left right : List Char) :
    encode (left ++ right) = encode left ++ encode right := by
  induction left with
  | nil => rfl
  | cons c left ih =>
    rw [List.cons_append, encode, encode, ih]
    cases letterOf? c <;> rfl

/-- A character that does not start an escape sequence is decoded as itself. -/
theorem decode_cons {c : Char} (h : c ≠ '\\') (rest : List Char) :
    decode (c :: rest) = c :: decode rest := by
  rw [decode]
  · intro hc
    exact absurd hc h
  · intro letter rest' hc
    exact absurd hc h

/-- **Round trip**: decoding undoes encoding. -/
theorem decode_encode (text : List Char) : decode (encode text) = text := by
  induction text with
  | nil => rfl
  | cons c rest ih =>
    rw [encode]
    cases hletter : letterOf? c with
    | none => rw [decode_cons (ne_backslash hletter), ih]
    | some letter =>
      simp only [decode, characterOf?_of_letterOf? hletter, ih]

/-! ## Backslashes in an encoded text -/

/-- The number of backslashes at the end of a text. -/
def trailingBackslashes (text : List Char) : Nat :=
  (text.reverse.takeWhile (· == '\\')).length

/-- A text has no more backslashes at its end than characters. -/
theorem trailingBackslashes_le (text : List Char) : trailingBackslashes text ≤ text.length := by
  calc trailingBackslashes text
    _ ≤ text.reverse.length := (List.takeWhile_sublist _).length_le
    _ = text.length := List.length_reverse

/-- A character in front of a text counts only if it is a backslash in front of backslashes. -/
theorem trailingBackslashes_cons (c : Char) (rest : List Char) :
    trailingBackslashes (c :: rest) =
      if c = '\\' ∧ trailingBackslashes rest = rest.length then rest.length + 1
      else trailingBackslashes rest := by
  simp only [trailingBackslashes, List.reverse_cons, List.takeWhile_append, List.length_reverse]
  by_cases hrest : (rest.reverse.takeWhile (· == '\\')).length = rest.length
  · by_cases hc : c = '\\'
    · simp [hrest, hc]
    · simp [hrest, hc]
  · simp [hrest]

/-- A character other than a backslash in front of a text does not count. -/
theorem trailingBackslashes_cons_of_ne {c : Char} (h : c ≠ '\\') (rest : List Char) :
    trailingBackslashes (c :: rest) = trailingBackslashes rest := by
  rw [trailingBackslashes_cons, if_neg]
  exact fun hc => h hc.1

/-- A sequence in front of a text does not change whether the number is even: its letter counts
only together with its backslash. -/
theorem trailingBackslashes_sequence (letter : Char) (rest : List Char) :
    trailingBackslashes ('\\' :: letter :: rest) % 2 = trailingBackslashes rest % 2 := by
  have hle := trailingBackslashes_le rest
  simp only [trailingBackslashes_cons, List.length_cons, true_and]
  by_cases hletter : letter = '\\' ∧ trailingBackslashes rest = rest.length
  · simp only [if_pos hletter, if_true]
    omega
  · rw [if_neg hletter, if_neg (by omega)]

/-- Backslashes come in pairs at the end of an encoded text. -/
theorem even_trailingBackslashes (text : List Char) :
    trailingBackslashes (encode text) % 2 = 0 := by
  induction text with
  | nil => rfl
  | cons c rest ih =>
    rw [encode]
    cases hletter : letterOf? c with
    | none => simp only [trailingBackslashes_cons_of_ne (ne_backslash hletter), ih]
    | some letter => simp only [trailingBackslashes_sequence, ih]

/-- **The backslashes in front of a character of an encoded text say what it is there for.** Behind
an odd number it is an escape letter; behind an even number it is a backslash, which starts a
sequence, or a character that is written as it is. -/
theorem encode_cut {text before after : List Char} {c : Char}
    (h : encode text = before ++ c :: after) :
    (trailingBackslashes before % 2 = 1 ∧ ∃ character, characterOf? c = some character) ∨
      (trailingBackslashes before % 2 = 0 ∧ (c = '\\' ∨ letterOf? c = none)) := by
  -- The cut falls in front of the first character's code, inside it, or into the rest.
  induction text generalizing before with
  | nil => simp [encode] at h
  | cons first rest ih =>
    rw [encode] at h
    cases hletter : letterOf? first with
    | none =>
      rw [hletter] at h
      cases before with
      | nil =>
        obtain ⟨rfl, -⟩ := List.cons.inj h
        exact .inr ⟨rfl, .inr hletter⟩
      | cons head before =>
        obtain ⟨rfl, hrest⟩ := List.cons.inj h
        rw [trailingBackslashes_cons_of_ne (ne_backslash hletter)]
        exact ih hrest
    | some letter =>
      rw [hletter] at h
      match before with
      | [] =>
        obtain ⟨rfl, -⟩ := List.cons.inj h
        exact .inr ⟨rfl, .inl rfl⟩
      | [head] =>
        obtain ⟨rfl, hcode⟩ := List.cons.inj h
        obtain ⟨rfl, -⟩ := List.cons.inj hcode
        exact .inl ⟨rfl, first, characterOf?_of_letterOf? hletter⟩
      | head :: second :: before =>
        obtain ⟨rfl, hcode⟩ := List.cons.inj h
        obtain ⟨rfl, hrest⟩ := List.cons.inj hcode
        rw [trailingBackslashes_sequence]
        exact ih hrest

/-- A quote in an encoded text stands behind an odd number of backslashes. -/
theorem odd_trailingBackslashes {text before after : List Char}
    (h : encode text = before ++ '"' :: after) : trailingBackslashes before % 2 = 1 := by
  rcases encode_cut h with ⟨hodd, -⟩ | ⟨-, hquote⟩
  · exact hodd
  · exact absurd hquote (by decide)

/-- A character of an encoded text has no escape letter, or it is a backslash or a quote. -/
theorem letterOf?_of_mem_encode {text : List Char} {c : Char} (h : c ∈ encode text) :
    letterOf? c = none ∨ c = '\\' ∨ c = '"' := by
  obtain ⟨before, after, hcut⟩ := List.append_of_mem h
  rcases encode_cut hcut with ⟨-, character, hletter⟩ | ⟨-, rfl | hplain⟩
  · exact letterOf?_letter hletter
  · exact .inr (.inl rfl)
  · exact .inl hplain

/-- There is no tab and no line end in an encoded text. -/
theorem mem_encode {text : List Char} {c : Char} (h : c ∈ encode text) :
    c ≠ '\t' ∧ c ≠ '\n' ∧ c ≠ '\r' := by
  have hplain := letterOf?_of_mem_encode h
  refine ⟨?_, ?_, ?_⟩ <;> · rintro rfl; exact absurd hplain (by decide)

/-! ## Encoded texts in literals -/

/-- Whether a text looks closed is seen on its last character and what stands in front of it. -/
theorem endsWithQuote_concat (quote : Char) (before : List Char) (last : Char) :
    QuotedText.endsWithQuote quote (before ++ [last]) =
      (last == quote && trailingBackslashes before % 2 == 0) := by
  simp [QuotedText.endsWithQuote, trailingBackslashes]

/-- An encoded text is not taken for the end of a literal. -/
theorem not_endsWithQuote_encode (text : List Char) :
    QuotedText.endsWithQuote '"' (encode text) = false := by
  rcases List.eq_nil_or_concat (encode text) with hnil | ⟨before, last, hconcat⟩
  · rw [hnil]
    rfl
  rw [List.concat_eq_append] at hconcat
  rw [hconcat, endsWithQuote_concat]
  by_cases hlast : last = '"'
  · subst hlast
    simp [odd_trailingBackslashes hconcat]
  · simp [hlast]

/-- The quote behind an encoded text is the end of a literal. -/
theorem endsWithQuote_encode (text : List Char) :
    QuotedText.endsWithQuote '"' (encode text ++ ['"']) = true := by
  rw [endsWithQuote_concat, even_trailingBackslashes]
  rfl

/-- An encoded text is cut at its spaces where the text is. -/
theorem splitOn_encode (text : List Char) :
    (encode text).splitOn ' ' = (text.splitOn ' ').map encode := by
  induction text with
  | nil => rfl
  | cons c rest ih =>
    obtain ⟨piece, pieces, hpieces⟩ := List.exists_cons_of_ne_nil (List.splitOn_ne_nil ' ' rest)
    rw [hpieces] at ih
    rw [encode, List.splitOn_cons_eq_if_modifyHead, hpieces]
    cases hletter : letterOf? c with
    | none =>
      rw [List.splitOn_cons_eq_if_modifyHead, ih]
      split
      · rfl
      · simp [encode, hletter]
    | some letter =>
      -- an escaped character is no space, and neither is the letter it is written with
      have hspace : c ≠ ' ' := by
        rintro rfl
        have : letterOf? ' ' = none := by decide
        exact nomatch this.symm.trans hletter
      have hvisible : letter ≠ ' ' := by
        rintro rfl
        have : characterOf? ' ' = none := by decide
        exact nomatch this.symm.trans (characterOf?_of_letterOf? hletter)
      rw [List.splitOn_cons_eq_if_modifyHead, List.splitOn_cons_eq_if_modifyHead, ih]
      simp [encode, hletter, hspace, hvisible]

end ChainIR.Escape
