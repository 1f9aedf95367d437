import Mathlib
import ChainIR.Proofs.Token.Kinds
import ChainIR.Proofs.Token.Rendering

/-! # Words that stay whole

A name in a program may hold carriage returns, so a line that is written may hold them too. A word
in front of a space is read as its token all the same; only at the end of the line carriage returns
are dropped (`Token.ofLine_spacedOut`).

* `Word.Intact`: words that are one item, or a literal, in front of a space.
* `Word.spacedOut`: the text of words with a space behind each. -/

namespace ChainIR

/-! ## Intact words -/

namespace Word

/-- A word that stays whole in front of a space: it holds no space, tab or line feed, and it starts
with a quote only if it is a literal. -/
def Intact : Word → Prop
  | bare text => Unspaced text.toList ∧ ∃ c ∈ text.toList.head?, c ≠ '"' ∧ c ≠ '\''
  | quoted _ => True

/-- What is read as it is written stays whole. -/
theorem Valid.intact {word : Word} (h : word.Valid) : word.Intact := by
  cases word with
  | bare text =>
    refine ⟨fun c hc => ?_, h.2⟩
    have hblank := h.1 c hc
    refine ⟨?_, ?_, ?_⟩ <;> · rintro rfl; exact absurd hblank (by decide)
  | quoted text => trivial

/-- A text without spaces behind a mark stays whole. -/
theorem intact_marked {text mark : String} (h : Unspaced text.toList)
    (hmark : mark = "%" ∨ mark = "$") : (bare (mark ++ text)).Intact := by
  rcases hmark with rfl | rfl <;>
  · rw [Intact, String.toList_append]
    exact ⟨List.forall_mem_cons.2 ⟨by decide, h⟩, _, rfl, by decide, by decide⟩

/-- The text of words with a space behind each. -/
def spacedOut (words : List Word) : List Char :=
  words.flatMap fun word => word.text.toList ++ [' ']

@[simp] theorem spacedOut_nil : spacedOut [] = [] := rfl

/-- The first word of a line is followed by its space. -/
theorem spacedOut_cons (word : Word) (words : List Word) :
    spacedOut (word :: words) = word.text.toList ++ ' ' :: spacedOut words := by
  simp [spacedOut]

/-- Lines of words are put together word by word. -/
theorem spacedOut_append (front back : List Word) :
    spacedOut (front ++ back) = spacedOut front ++ spacedOut back := List.flatMap_append

/-- A line is made of its words in front of the last one and of the last one. -/
theorem toList_spaced_concat (words : List Word) (last : Word) :
    (spaced ((words ++ [last]).map text)).toList = spacedOut words ++ last.text.toList := by
  rw [toList_spaced, List.map_map]
  induction words with
  | nil => simp
  | cons word words ih =>
    rw [List.cons_append, List.map_cons, List.intercalate_cons_of_ne_nil (by simp), ih,
      spacedOut_cons]
    simp

/-- A line of words behind a tab. -/
theorem toList_indented_concat (words : List Word) (last : Word) :
    ("\t" ++ spaced ((words ++ [last]).map text)).toList =
      '\t' :: (spacedOut words ++ last.text.toList) := by
  rw [String.toList_append, toList_spaced_concat]
  rfl

/-- There is no tab and no line feed in an intact word. -/
theorem Intact.mem_text {word : Word} (h : word.Intact) {c : Char} (hc : c ∈ word.text.toList) :
    c ≠ '\t' ∧ c ≠ '\n' := by
  cases word with
  | bare text => exact (h.1 c hc).2
  | quoted text =>
    have hvalid : (quoted text).Valid := trivial
    obtain ⟨htab, hfeed, -⟩ := not_blank_of_mem_text hvalid hc
    exact ⟨htab, hfeed⟩

/-- Words that are intact hold no tab and no line feed, and neither do their spaces. -/
theorem mem_spacedOut {words : List Word} (h : ∀ word ∈ words, word.Intact) {c : Char}
    (hc : c ∈ spacedOut words) : c ≠ '\t' ∧ c ≠ '\n' := by
  obtain ⟨word, hmem, hc⟩ := List.mem_flatMap.1 hc
  rcases List.mem_append.1 hc with hc | hc
  · exact (h word hmem).mem_text hc
  · rw [List.mem_singleton.1 hc]
    decide

end Word

/-! ## Scanning intact words -/

namespace Token

open Word

/-- A word that stays whole is scanned as its token. -/
theorem scan_word {word : Word} (h : word.Intact) (line : Nat) (rest : List Char) :
    scan line (word.text.toList ++ ' ' :: rest) = (scan line rest).map (word.token line :: ·) := by
  cases word with
  | bare text =>
    obtain ⟨hunspaced, hstart⟩ := h
    obtain ⟨first, behind, htext, hdouble, hsingle⟩ := exists_toList_eq_cons hstart
    have hquote : ¬(first = '"' ∨ first = '\'') := fun hquoted => hquoted.elim hdouble hsingle
    rw [htext] at hunspaced
    have hspace : first ≠ ' ' := (hunspaced first (.head _)).1
    have hbehind : ' ' ∉ behind := fun hmem => (hunspaced ' ' (.tail _ hmem)).1 rfl
    have htoken : (bare text).token line = ofItem line first behind := by
      rw [Word.token, htext, ofWord?_cons hquote]
      rfl
    rw [htoken, Word.text, htext, List.cons_append, scan_item hspace hquote line hbehind (by simp),
      scan_space]
  | quoted text =>
    rw [Word.toList_quoted, List.cons_append, scan_string, Word.token]

/-- Words that stay whole are scanned as their tokens. -/
theorem scan_spacedOut {words : List Word} (h : ∀ word ∈ words, word.Intact) (line : Nat)
    (rest : List Char) :
    scan line (spacedOut words ++ rest) =
      (scan line rest).map (words.map (Word.token line) ++ ·) := by
  induction words with
  | nil =>
    rw [spacedOut_nil, List.nil_append]
    cases scan line rest <;> rfl
  | cons word words ih =>
    rw [spacedOut_cons, List.append_assoc, List.cons_append, scan_word (h word (.head _)),
      ih fun other hmem => h other (.tail _ hmem)]
    cases scan line rest <;> rfl

/-- Tokens that start with those read first go on with those read behind them. -/
theorem exists_of_map_append {front : List Token} {rest : Except LexError (List Token)}
    {tokens : List Token} (h : rest.map (front ++ ·) = .ok tokens) :
    ∃ others, rest = .ok others ∧ tokens = front ++ others := by
  cases rest with
  | error error => cases h
  | ok others => exact ⟨others, rfl, (Except.ok.inj h).symm⟩

/-- At the end of a line characters are only dropped. -/
theorem withoutLineEnd_front (text : List Char) : withoutLineEnd text <+: text := by
  rw [withoutLineEnd_eq_rdropWhile]
  exact List.rdropWhile_prefix _ _

/-- In front of a character that ends no line nothing is dropped. -/
theorem withoutLineEnd_append_cons {c : Char} (hc : c ≠ '\n' ∧ c ≠ '\r') (front rest : List Char) :
    withoutLineEnd (front ++ c :: rest) = front ++ c :: withoutLineEnd rest := by
  rw [withoutLineEnd, withoutLineEnd, List.reverse_append, List.reverse_cons, List.append_assoc,
    List.dropWhile_append]
  split
  · next hend =>
    rw [List.isEmpty_iff.1 hend]
    simp [hc]
  · simp

/-- **Intact words are read as they are**: the words in front of the end of a line are read as their
tokens. -/
theorem ofLine_spacedOut {words : List Word} (h : ∀ word ∈ words, word.Intact) (hne : words ≠ [])
    {rest : List Char} (hrest : ∀ c ∈ rest, c ≠ '\t' ∧ c ≠ '\n') (number : Nat) :
    ofLine number ('\t' :: (spacedOut words ++ rest)) =
      (scan number (withoutLineEnd rest)).map (words.map (Word.token number) ++ ·) := by
  obtain ⟨front, last, rfl⟩ : ∃ front last, words = front ++ [last] :=
    ⟨_, _, (List.dropLast_concat_getLast hne).symm⟩
  have hspace : '\t' :: (spacedOut (front ++ [last]) ++ rest) =
      ('\t' :: (spacedOut front ++ last.text.toList)) ++ ' ' :: rest := by
    simp [spacedOut]
  have hend : withoutLineEnd ('\t' :: (spacedOut (front ++ [last]) ++ rest)) =
      '\t' :: (spacedOut (front ++ [last]) ++ withoutLineEnd rest) := by
    rw [hspace, withoutLineEnd_append_cons (by decide)]
    simp [spacedOut]
  have hkept : ∀ c ∈ spacedOut (front ++ [last]) ++ withoutLineEnd rest, (c != '\t') = true := by
    intro c hc
    rcases List.mem_append.1 hc with hc | hc
    · simpa using (mem_spacedOut h hc).1
    · simpa using (hrest c ((withoutLineEnd_front rest).subset hc)).1
  rw [ofLine_eq_scan, hend, List.filter_cons_of_neg (by decide), List.filter_eq_self.2 hkept,
    scan_spacedOut h]

end Token

end ChainIR
