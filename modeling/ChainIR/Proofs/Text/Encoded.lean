import Mathlib
import ChainIR.Proofs.Text.Escape

/-! # Encoded texts

A text can be cut where no escape sequence is cut in two, and its pieces are decoded one by one
(`decode_append`); the end of an encoded text is such a place. The encoded texts are those that a
small grammar describes (`IsEncoded`), and the only ones that decoding and encoding give back
(`encode_decode_iff`): an unknown sequence and a lone backslash are decoded as they stand, but not
written so. `decoding_undoes_encoding` puts this together with what stands in an encoded text. -/

namespace ChainIR.Escape

/-! ## Decoding piece by piece -/

/-- Decoding goes piece by piece where a text is cut behind an even number of backslashes. -/
theorem decode_append {left : List Char} (h : trailingBackslashes left % 2 = 0)
    (right : List Char) : decode (left ++ right) = decode left ++ decode right := by
  -- The number is even in front of what `decode` reads in one step, and odd inside a sequence.
  fun_induction decode left with
  | case1 => rfl
  | case2 => exact absurd h (by decide)
  | case3 letter rest c hletter ih =>
    rw [trailingBackslashes_sequence] at h
    simp only [List.cons_append, decode, hletter, ih h]
  | case4 letter rest hletter ih =>
    rw [trailingBackslashes_sequence] at h
    simp only [List.cons_append, decode, hletter, ih h]
  | case5 c rest hlone hsequence ih =>
    have hc : c ≠ '\\' := by
      intro hc
      cases rest with
      | nil => exact hlone hc rfl
      | cons letter rest => exact hsequence letter rest hc rfl
    rw [trailingBackslashes_cons_of_ne hc] at h
    rw [List.cons_append, decode_cons hc, ih h, List.cons_append]

/-- Decoding undoes encoding, whatever stands behind. -/
theorem decode_encode_append (text rest : List Char) :
    decode (encode text ++ rest) = text ++ decode rest := by
  rw [decode_append (even_trailingBackslashes text), decode_encode]

/-! ## The grammar of encoded texts -/

/-- The texts in which every character with an escape letter is written with it, and in which a
backslash stands only in front of an escape letter. -/
inductive IsEncoded : List Char → Prop
  /-- The empty text is encoded. -/
  | nil : IsEncoded []
  /-- A character without escape letter is written as it is. -/
  | plain {c : Char} {rest : List Char} (h : ∀ letter, (letter, c) ∉ sequences)
      (hrest : IsEncoded rest) : IsEncoded (c :: rest)
  /-- Any other character is written as a backslash and its letter. -/
  | sequence {letter c : Char} {rest : List Char} (h : (letter, c) ∈ sequences)
      (hrest : IsEncoded rest) : IsEncoded ('\\' :: letter :: rest)

/-- Encoding gives encoded texts. -/
theorem isEncoded_encode (text : List Char) : IsEncoded (encode text) := by
  induction text with
  | nil => exact .nil
  | cons c rest ih =>
    rw [encode]
    cases hletter : letterOf? c with
    | none =>
      refine .plain (fun letter hmem => ?_) ih
      rw [letterOf?_eq_some.2 hmem] at hletter
      exact absurd hletter (Option.some_ne_none letter)
    | some letter => exact .sequence (letterOf?_eq_some.1 hletter) ih

/-- Encoding what an encoded text is decoded to gives the text back. -/
theorem IsEncoded.encode_decode {written : List Char} (h : IsEncoded written) :
    encode (decode written) = written := by
  induction h with
  | nil => rfl
  | @plain c rest h _ ih =>
    have hletter : letterOf? c = none :=
      Option.eq_none_iff_forall_ne_some.2 fun letter hsome => h letter (letterOf?_eq_some.1 hsome)
    rw [decode_cons (ne_backslash hletter), encode, hletter, ih]
  | sequence h _ ih =>
    simp only [decode, characterOf?_eq_some.2 h, encode, letterOf?_eq_some.2 h, ih]

/-- **Encoded texts**: exactly these are given back by decoding and encoding. -/
theorem encode_decode_iff {written : List Char} :
    encode (decode written) = written ↔ IsEncoded written := by
  constructor
  · intro h
    rw [← h]
    exact isEncoded_encode _
  · exact IsEncoded.encode_decode

instance : DecidablePred IsEncoded := fun _ => decidable_of_iff _ encode_decode_iff

/-- An unknown sequence and a lone backslash are decoded as they stand, but not encoded so. -/
example : decode "\\q".toList = "\\q".toList ∧ ¬IsEncoded "\\q".toList ∧
    decode "end\\".toList = "end\\".toList ∧ ¬IsEncoded "end\\".toList := by decide

/-! ## Encoded strings -/

/-- Decoding undoes encoding, whatever string stands behind. -/
theorem decodeString_encodeString_append (text rest : String) :
    decodeString (encodeString text ++ rest) = text ++ decodeString rest := by
  apply String.toList_injective
  simp [decode_encode_append]

/-- Decoding undoes encoding of strings. -/
theorem decodeString_encodeString : Function.LeftInverse decodeString encodeString := by
  intro text
  apply String.toList_injective
  simp [decode_encode]

/-- Exactly the encoded strings are given back by decoding and encoding. -/
theorem encodeString_decodeString_iff {written : String} :
    encodeString (decodeString written) = written ↔ IsEncoded written.toList := by
  rw [← encode_decode_iff, ← String.toList_inj, toList_encodeString, toList_decodeString]

/-- Exactly the encoded strings are written by encoding. -/
theorem exists_encodeString_iff {written : String} :
    (∃ text, encodeString text = written) ↔ IsEncoded written.toList := by
  constructor
  · rintro ⟨text, rfl⟩
    rw [toList_encodeString]
    exact isEncoded_encode _
  · intro h
    exact ⟨decodeString written, encodeString_decodeString_iff.2 h⟩

/-- **Decoding undoes encoding.** It does so whatever stands behind the encoded text, so that no two
texts are encoded alike. Decoding and encoding give a text back exactly if it is encoded, and the
encoded texts are those of the grammar. In an encoded text there is no control character that has
an escape letter, every double quote stands behind an odd number of backslashes, and the number of
backslashes at the end is even. -/
theorem decoding_undoes_encoding :
    (∀ text rest, decodeString (encodeString text ++ rest) = text ++ decodeString rest) ∧
    (∀ text, decodeString (encodeString text) = text) ∧
    Function.Injective encodeString ∧
    (∀ written, encodeString (decodeString written) = written ↔
      ∃ text, encodeString text = written) ∧
    (∀ written, (∃ text, encodeString text = written) ↔ IsEncoded written.toList) ∧
    (∀ text, ∀ c ∈ ['\x07', '\x08', '\t', '\n', '\x0b', '\x0c', '\r'],
      c ∉ (encodeString text).toList) ∧
    (∀ text before after, (encodeString text).toList = before ++ '"' :: after →
      Odd (trailingBackslashes before)) ∧
    ∀ text, Even (trailingBackslashes (encodeString text).toList) := by
  refine ⟨decodeString_encodeString_append, decodeString_encodeString,
    decodeString_encodeString.injective, ?_, fun _ => exists_encodeString_iff, ?_, ?_, ?_⟩
  · intro written
    rw [encodeString_decodeString_iff, exists_encodeString_iff]
  · intro text c hc hmem
    rw [toList_encodeString] at hmem
    -- an encoded character has no escape letter of its own
    have hplain := letterOf?_of_mem_encode hmem
    fin_cases hc <;> exact absurd hplain (by decide)
  · intro text before after hcut
    rw [toList_encodeString] at hcut
    exact Nat.odd_iff.2 (odd_trailingBackslashes hcut)
  · intro text
    rw [toList_encodeString]
    exact Nat.even_iff.2 (even_trailingBackslashes _)

/-- A path that ends in a backslash, with a quote and a line feed behind it: the quote is written
behind three backslashes, and a lone backslash behind the encoded text stays what it is. -/
theorem decoding_undoes_encoding_path :
    decodeString (encodeString "C:\\\"\n" ++ "\\") = "C:\\\"\n" ++ decodeString "\\" ∧
    '\n' ∉ (encodeString "C:\\\"\n").toList ∧
    (encodeString "C:\\\"\n").toList = "C:\\\\\\".toList ++ '"' :: "\\n".toList ∧
    Odd (trailingBackslashes "C:\\\\\\".toList) ∧
    Even (trailingBackslashes (encodeString "C:\\\"\n").toList) := by
  obtain ⟨hbehind, -, -, -, -, hcontrol, hquote, hend⟩ := decoding_undoes_encoding
  have hcut : (encodeString "C:\\\"\n").toList = "C:\\\\\\".toList ++ '"' :: "\\n".toList := by
    decide
  exact ⟨hbehind _ _, hcontrol _ '\n' (by decide), hcut, hquote _ _ _ hcut, hend _⟩

end ChainIR.Escape
