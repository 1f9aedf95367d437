import Mathlib
import ChainIR.Proofs.Outline.Basic
import ChainIR.Proofs.Text.Escape
import ChainIR.Proofs.Text.Pieces

/-! # The tokens of written words

A line that is written word by word is read as the tokens of its words (`Token.ofLine_text`): a
word without blanks is a fragment of the line, and the fragments of a literal in quotes grow
together again, since no fragment but the last looks closed.

* `Unbroken`, `Plain`: texts that stay together as one word, and those that say what they are. -/

namespace ChainIR

/-! ## Plain texts -/

/-- Whether a character ends a word or a line. -/
def isBlank (c : Char) : Bool := c == ' ' || c == '\t' || c == '\n' || c == '\r'

/-- A text without blanks. -/
def Unbroken (text : String) : Prop := ∀ c ∈ text.toList, isBlank c = false

instance (text : String) : Decidable (Unbroken text) :=
  decidable_of_iff (text.toList.all fun c => !isBlank c) (by simp [Unbroken])

/-- The characters that say what the word behind them is. -/
def marks : List Char := ['"', '\'', '%', '@', '$']

/-- A text without blanks that is not empty and does not start with a mark. -/
def Plain (text : String) : Prop :=
  Unbroken text ∧ ∃ c ∈ text.toList.head?, c ∉ marks

instance (text : String) : Decidable (Plain text) :=
  decidable_of_iff (Unbroken text ∧ text.toList.head?.any (!marks.contains ·))
    (and_congr_right fun _ => by simp [Option.any_eq_true])

/-! ## Cutting a line at its spaces -/

/-- The fragments of a text with a quote behind it. -/
def quoteLast : List (List Char) → List (List Char)
  | [] => [['"']]
  | [piece] => [piece ++ ['"']]
  | piece :: next :: rest => piece :: quoteLast (next :: rest)

/-- A quote belongs to the last piece. -/
theorem splitOn_concat_quote (text : List Char) :
    (text ++ ['"']).splitOn ' ' = quoteLast (text.splitOn ' ') := by
  induction text with
  | nil => rfl
  | cons c rest ih =>
    obtain ⟨piece, pieces, hpieces⟩ := List.exists_cons_of_ne_nil (List.splitOn_ne_nil ' ' rest)
    rw [hpieces] at ih
    rw [List.cons_append, List.splitOn_cons_eq_if_modifyHead, List.splitOn_cons_eq_if_modifyHead,
      ih, hpieces]
    by_cases hspace : c = ' '
    · subst hspace
      rfl
    · cases pieces <;> simp [hspace, quoteLast]

namespace Word

/-- The fragments of a word between the spaces of its line. -/
def fragments : Word → List (List Char)
  | bare text => [text.toList]
  | quoted text =>
    (quoteLast ((text.toList.splitOn ' ').map Escape.encode)).modifyHead ('"' :: ·)

/-- The token of a word. -/
def token (line : Nat) : Word → Token
  | bare text => (Token.ofWord? line text.toList).getD (.eof line)
  | quoted text => ⟨.string, text, line⟩

/-- A word that is read as it is written. -/
def Valid : Word → Prop
  | bare text => Unbroken text ∧ ∃ c ∈ text.toList.head?, c ≠ '"' ∧ c ≠ '\''
  | quoted _ => True

/-- A plain text is a word. -/
theorem valid_bare {text : String} (h : Plain text) : (bare text).Valid := by
  obtain ⟨hunbroken, c, hc, hmark⟩ := h
  refine ⟨hunbroken, c, hc, ?_, ?_⟩ <;> · rintro rfl; exact hmark (by decide)

/-- A text without blanks behind a mark is a word. -/
theorem valid_marked {text mark : String} (h : Unbroken text)
    (hmark : mark = "%" ∨ mark = "@" ∨ mark = "$") : (bare (mark ++ text)).Valid := by
  rcases hmark with rfl | rfl | rfl <;>
  · refine ⟨fun c hc => ?_, ?_⟩
    · rw [String.toList_append] at hc
      rcases List.mem_append.1 hc with hc | hc
      · obtain rfl := List.mem_singleton.1 hc
        rfl
      · exact h c hc
    · rw [String.toList_append]
      exact ⟨_, rfl, by decide, by decide⟩

/-- A quoted word is its text, encoded, between quotes. -/
theorem toList_quoted (text : String) :
    (quoted text).text.toList = '"' :: (Escape.encode text.toList ++ ['"']) := by
  simp [Word.text]

/-- A word is cut at its spaces into its fragments. -/
theorem splitOn_text {word : Word} (h : word.Valid) :
    word.text.toList.splitOn ' ' = word.fragments := by
  cases word with
  | bare text =>
    refine List.splitOn_eq_singleton fun hspace => ?_
    exact absurd (h.1 ' ' hspace) (by decide)
  | quoted text =>
    rw [toList_quoted, List.splitOn_cons_eq_if_modifyHead, splitOn_concat_quote,
      Escape.splitOn_encode]
    rfl

/-- There is no tab and no line end in a word. -/
theorem not_blank_of_mem_text {word : Word} (h : word.Valid) {c : Char}
    (hc : c ∈ word.text.toList) : c ≠ '\t' ∧ c ≠ '\n' ∧ c ≠ '\r' := by
  cases word with
  | bare text =>
    have hblank := h.1 c hc
    refine ⟨?_, ?_, ?_⟩ <;> · rintro rfl; exact absurd hblank (by decide)
  | quoted text =>
    have hc' : c = '"' ∨ c ∈ Escape.encode text.toList ∨ c = '"' := by
      simpa [toList_quoted] using hc
    rcases hc' with rfl | hc' | rfl
    · decide
    · exact Escape.mem_encode hc'
    · decide

end Word

/-- The characters of words with spaces between them. -/
theorem toList_spaced (words : List String) :
    (spaced words).toList = [' '].intercalate (words.map String.toList) := by
  rw [spaced, String.toList_intercalate]
  rfl

/-- A line of words is cut at its spaces into the fragments of the words. -/
theorem splitOn_spaced {words : List Word} (hwords : words ≠ [])
    (h : ∀ word ∈ words, word.Valid) :
    (spaced (words.map Word.text)).toList.splitOn ' ' = (words.map Word.fragments).flatten := by
  induction words with
  | nil => exact absurd rfl hwords
  | cons first rest ih =>
    have hfirst := Word.splitOn_text (h first (.head _))
    cases rest with
    | nil => simpa [toList_spaced] using hfirst
    | cons second rest =>
      have hrest := ih (by simp) fun word hmem => h word (.tail _ hmem)
      rw [toList_spaced] at hrest ⊢
      simp only [List.map_cons] at hrest ⊢
      rw [List.intercalate_cons_cons, List.append_assoc, List.singleton_append,
        List.splitOn_append_cons_self, hfirst, hrest]
      rfl

/-- There is no tab and no line end in a line of words. -/
theorem not_blank_of_mem_spaced {words : List Word} (h : ∀ word ∈ words, word.Valid) {c : Char}
    (hc : c ∈ (spaced (words.map Word.text)).toList) : c ≠ '\t' ∧ c ≠ '\n' ∧ c ≠ '\r' := by
  induction words with
  | nil => exact absurd hc (by simp [spaced])
  | cons first rest ih =>
    have hfirst : c ∈ first.text.toList → _ := Word.not_blank_of_mem_text (h first (.head _))
    cases rest with
    | nil => exact hfirst (by simpa [spaced] using hc)
    | cons second rest =>
      rw [toList_spaced] at hc ih
      simp only [List.map_cons] at hc ih
      rw [List.intercalate_cons_cons, List.append_assoc] at hc
      rcases List.mem_append.1 hc with hc | hc
      · exact hfirst hc
      rcases List.mem_append.1 hc with hc | hc
      · obtain rfl := List.mem_singleton.1 hc
        decide
      · exact ih (fun word hmem => h word (.tail _ hmem)) hc

/-! ## Reading the fragments of a word -/

namespace Token

/-- Tokens that start with the one read first go on with those read behind it. -/
theorem exists_of_map_cons {first : Token} {rest : Except LexError (List Token)}
    {tokens : List Token} (h : rest.map (first :: ·) = .ok tokens) :
    ∃ others, rest = .ok others ∧ tokens = first :: others := by
  cases rest with
  | error error => exact nomatch h
  | ok others => exact ⟨others, rfl, (Except.ok.inj h).symm⟩

open Escape

/-- A text, a space and more text, all encoded. -/
theorem encode_space (left right : List Char) :
    encode (left ++ ' ' :: right) = encode left ++ ' ' :: encode right := by
  rw [encode_append]
  rfl

/-- The fragments of a literal behind its first grow together with what has been read of it. -/
theorem ofFragments_pending (line : Nat) (rest : List (List Char)) (pieces : List (List Char))
    (hpieces : pieces ≠ []) (read : List Char) :
    ofFragments line (some ⟨'"', '"' :: encode read⟩) (quoteLast (pieces.map encode) ++ rest) =
      (ofFragments line none rest).map
        (⟨.string, String.ofList (read ++ ' ' :: [' '].intercalate pieces), line⟩ :: ·) := by
  induction pieces generalizing read with
  | nil => exact absurd rfl hpieces
  | cons piece pieces ih =>
    cases pieces with
    | nil =>
      -- what is read so far and the piece are joined by the space they were cut at
      have hbody : encode read ++ ' ' :: (encode piece ++ ['"']) =
          encode (read ++ ' ' :: piece) ++ ['"'] := by
        rw [encode_space]
        simp
      simp only [List.map_cons, List.map_nil, quoteLast, List.cons_append, List.nil_append,
        ofFragments, Option.map_some, Option.some_or, QuotedText.extend, QuotedText.isClosed,
        List.tail_cons, hbody, endsWithQuote_encode, if_true, QuotedText.token,
        List.dropLast_concat, decode_encode, List.intercalate_singleton, QuotedText.kind]
    | cons next pieces =>
      have hbody : encode read ++ ' ' :: encode piece = encode (read ++ ' ' :: piece) :=
        (encode_space read piece).symm
      have hrest := ih (by simp) (read ++ ' ' :: piece)
      simp only [List.map_cons] at hrest
      simp only [List.map_cons, quoteLast, List.cons_append, ofFragments, Option.map_some,
        Option.some_or, QuotedText.extend, QuotedText.isClosed, List.tail_cons, hbody,
        not_endsWithQuote_encode, Bool.false_eq_true, if_false, hrest]
      rw [List.intercalate_cons_cons]
      simp

/-- A fragment that is not empty is a token. -/
theorem exists_ofWord? (line : Nat) (first : Char) (rest : List Char) :
    ∃ token, ofWord? line (first :: rest) = some token := by
  rw [ofWord?]
  split_ifs <;> exact ⟨_, rfl⟩

/-- The fragments of a word are read as its token. -/
theorem ofFragments_word {word : Word} (h : word.Valid) (line : Nat) (rest : List (List Char)) :
    ofFragments line none (word.fragments ++ rest) =
      (ofFragments line none rest).map (word.token line :: ·) := by
  cases word with
  | bare text =>
    obtain ⟨-, c, hc, hdouble, hsingle⟩ := h
    obtain ⟨tail, htail⟩ : ∃ tail, text.toList = c :: tail := by
      cases htext : text.toList with
      | nil => simp [htext] at hc
      | cons first tail => simp_all
    -- neither quote opens it, so no quoted text begins
    have hopen : QuotedText.open? (c :: tail) = none := by
      rw [QuotedText.open?.eq_def]
      split <;> simp_all
    obtain ⟨token, htoken⟩ := exists_ofWord? line c tail
    simp only [Word.fragments, htail, List.singleton_append, ofFragments, Option.map_none,
      Option.none_or, hopen, htoken, Word.token, Option.getD_some]
  | quoted text =>
    have hsplit : [' '].intercalate (text.toList.splitOn ' ') = text.toList :=
      List.intercalate_splitOn ' '
    have hne := List.splitOn_ne_nil ' ' text.toList
    rw [Word.fragments, Word.token]
    -- only that the pieces join to the text is needed of them
    generalize text.toList.splitOn ' ' = pieces at hsplit hne
    have htext : text = String.ofList ([' '].intercalate pieces) := by
      rw [hsplit, String.ofList_toList]
    cases pieces with
    | nil => exact absurd rfl hne
    | cons piece pieces =>
      cases pieces with
      | nil =>
        simp only [List.map_cons, List.map_nil, quoteLast, List.modifyHead_cons,
          List.singleton_append, ofFragments, Option.map_none, Option.none_or, QuotedText.open?,
          QuotedText.isClosed, List.tail_cons, endsWithQuote_encode, if_true, QuotedText.token,
          List.dropLast_concat, decode_encode, QuotedText.kind, htext,
          List.intercalate_singleton]
      | cons next pieces =>
        have hrest := ofFragments_pending line rest (next :: pieces) (by simp) piece
        simp only [List.map_cons] at hrest
        simp only [List.map_cons, quoteLast, List.modifyHead_cons, List.cons_append, ofFragments,
          Option.map_none, Option.none_or, QuotedText.open?, QuotedText.isClosed, List.tail_cons,
          not_endsWithQuote_encode, Bool.false_eq_true, if_false, hrest, htext]
        rw [List.intercalate_cons_cons]
        simp

/-- The fragments of words are read as their tokens. -/
theorem ofFragments_words {words : List Word} (h : ∀ word ∈ words, word.Valid) (line : Nat) :
    ofFragments line none (words.map Word.fragments).flatten =
      .ok (words.map (Word.token line)) := by
  induction words with
  | nil => rfl
  | cons first rest ih =>
    rw [List.map_cons, List.flatten_cons, ofFragments_word (h first (.head _)),
      ih fun word hmem => h word (.tail _ hmem)]
    rfl

/-- A line without line ends in it has none at its end. -/
theorem withoutLineEnd_eq_self {line : List Char} (h : ∀ c ∈ line, c ≠ '\n' ∧ c ≠ '\r') :
    withoutLineEnd line = line := by
  have hreverse : ∀ c ∈ line.reverse, (c == '\n' || c == '\r') = false := fun c hc => by
    simpa using h c (List.mem_reverse.1 hc)
  rw [withoutLineEnd]
  cases hline : line.reverse with
  | nil => rw [List.reverse_eq_nil_iff.1 hline]; rfl
  | cons c rest =>
    rw [List.dropWhile_cons, hreverse c (by simp [hline]), if_neg (by simp), ← hline,
      List.reverse_reverse]

/-- **Words are read back**: a written line is read as the tokens of its words. -/
theorem ofLine_text {line : TextLine} (hwords : line.words ≠ [])
    (h : ∀ word ∈ line.words, word.Valid) (number : Nat) :
    ofLine number line.text.toList = .ok (line.words.map (Word.token number)) := by
  have hblank := fun c hc => not_blank_of_mem_spaced h (c := c) hc
  have htabs : line.text.toList.filter (· != '\t') =
      (spaced (line.words.map Word.text)).toList := by
    have hkept : (spaced (line.words.map Word.text)).toList.filter (· != '\t') =
        (spaced (line.words.map Word.text)).toList :=
      List.filter_eq_self.2 fun c hc => by simpa using (hblank c hc).1
    rw [TextLine.text]
    split
    · rw [String.toList_append, List.filter_append, hkept]
      rfl
    · rw [String.empty_append, hkept]
  have hends : withoutLineEnd line.text.toList = line.text.toList := by
    refine withoutLineEnd_eq_self fun c hc => ?_
    by_cases htab : c = '\t'
    · subst htab
      decide
    · have : c ∈ line.text.toList.filter (· != '\t') := List.mem_filter.2 ⟨hc, by simpa using htab⟩
      rw [htabs] at this
      exact (hblank c this).2
  rw [ofLine, fragments, hends, splitOn_filter rfl, htabs, splitOn_spaced hwords h,
    ofFragments_words h]

end Token

end ChainIR
