import Mathlib
import ChainIR.Proofs.Token.Word

/-! # Scanning a line from left to right

The tokens of a line are made from the fragments between its spaces, and a literal grows out of
several of them. `Token.scan` says the same in one pass over the characters: spaces are skipped,
a literal extends to the first quote that closes it (`Token.closing?`), and any other item to the
next space. Both give the same tokens or the same error for every line
(`Token.ofLine_eq_scanLine`).

* `Token.closesAt`, `Token.closing?`: where a literal ends.
* `Token.scan`, `Token.scanLine`: the tokens of a text and of a line. -/

namespace ChainIR

namespace TokenKind

/-- The class of an item by its first character. -/
def startedBy (first : Char) : TokenKind :=
  if first = '"' then .string
  else if first = '\'' then .char
  else if first = '%' then .register
  else if first = '@' then .block
  else if first = '$' then .global
  else if first.isDigit ∨ first = '.' then .number
  else if first.isAlpha ∨ first = '_' then .identifier
  else .operator

/-- Whether the first character of an item says its class only and is no part of its value. -/
def isMarked (kind : TokenKind) : Bool := kind == .register || kind == .block || kind == .global

end TokenKind

namespace Token

open Escape (trailingBackslashes endsWithQuote_concat)

/-! ## The scanner -/

/-- Whether the literal in front of `text` ends at a position: a quote stands there behind an even
number of backslashes, and a space or the end of the line behind it. -/
def closesAt (quote : Char) (text : List Char) (position : Nat) : Bool :=
  text[position]? == some quote && trailingBackslashes (text.take position) % 2 == 0 &&
    text[position + 1]?.all (· == ' ')

/-- Where the literal in front of `text` ends first. -/
def closing? (quote : Char) (text : List Char) : Option Nat :=
  (List.range text.length).find? (closesAt quote text)

/-- The token of an item that is no literal. -/
def ofItem (line : Nat) (first : Char) (rest : List Char) : Token :=
  ⟨.startedBy first,
    String.ofList (if (TokenKind.startedBy first).isMarked then rest else first :: rest), line⟩

/-- The tokens of a text, read from left to right. -/
def scan (line : Nat) : List Char → Except LexError (List Token)
  | [] => .ok []
  | first :: rest =>
    if first = ' ' then scan line rest
    else if first = '"' ∨ first = '\'' then
      match closing? first rest with
      | some position =>
        (scan line (rest.drop (position + 1))).map
          (⟨.startedBy first, String.ofList (Escape.decode (rest.take position)), line⟩ :: ·)
      | none =>
        .error (.unterminatedLiteral ⟨.startedBy first, String.ofList (first :: rest), line⟩)
    else
      (scan line (rest.dropWhile (· != ' '))).map
        (ofItem line first (rest.takeWhile (· != ' ')) :: ·)
termination_by text => text.length
decreasing_by
  · simp
  · simp only [List.length_drop, List.length_cons]
    omega
  · have := (List.dropWhile_sublist (l := rest) (· != ' ')).length_le
    simp only [List.length_cons]
    omega

/-- The tokens of a line: without the line feeds and carriage returns at its end and without its
tabs it is read from left to right. -/
def scanLine (number : Nat) (line : List Char) : Except LexError (List Token) :=
  scan number ((line.rdropWhile fun c => c = '\n' ∨ c = '\r').filter (· ≠ '\t'))

theorem scan_nil (line : Nat) : scan line [] = .ok [] := by
  rw [scan]

/-- A space is skipped. -/
theorem scan_space (line : Nat) (rest : List Char) : scan line (' ' :: rest) = scan line rest := by
  rw [scan, if_pos rfl]

/-- A text behind an opening quote is a literal as far as the quote that closes it. -/
theorem scan_quote {quote : Char} (hquote : quote = '"' ∨ quote = '\'') (line : Nat)
    (rest : List Char) :
    scan line (quote :: rest) =
      match closing? quote rest with
      | some position =>
        (scan line (rest.drop (position + 1))).map
          (⟨.startedBy quote, String.ofList (Escape.decode (rest.take position)), line⟩ :: ·)
      | none =>
        .error (.unterminatedLiteral ⟨.startedBy quote, String.ofList (quote :: rest), line⟩) := by
  have hspace : quote ≠ ' ' := by
    rcases hquote with rfl | rfl <;> decide
  rw [scan, if_neg hspace, if_pos hquote]

/-- Any other item ends before a space or at the end of the line. -/
theorem scan_item {first : Char} (hspace : first ≠ ' ') (hquote : ¬(first = '"' ∨ first = '\''))
    (line : Nat) {rest tail : List Char} (hrest : ' ' ∉ rest)
    (htail : ∀ c ∈ tail.head?, c = ' ') :
    scan line (first :: (rest ++ tail)) = (scan line tail).map (ofItem line first rest :: ·) := by
  have hkept : ∀ c ∈ rest, (c != ' ') = true := by
    intro c hc
    simpa using ne_of_mem_of_not_mem hc hrest
  have htaken : tail.takeWhile (· != ' ') = [] ∧ tail.dropWhile (· != ' ') = tail := by
    cases tail with
    | nil => exact ⟨rfl, rfl⟩
    | cons c tail =>
      obtain rfl := htail c rfl
      exact ⟨rfl, rfl⟩
  rw [scan, if_neg hspace, if_neg hquote, List.takeWhile_append_of_pos hkept,
    List.dropWhile_append_of_pos hkept, htaken.1, htaken.2, List.append_nil]

/-! ## Where a literal ends -/

/-- Whether a literal ends before a space or at the end of the line is seen on what is in front
of it. -/
theorem closesAt_last (quote : Char) {read tail : List Char} (hread : read ≠ [])
    (htail : ∀ c ∈ tail.head?, c = ' ') :
    closesAt quote (read ++ tail) (read.length - 1) = QuotedText.endsWithQuote quote read := by
  obtain ⟨before, last, rfl⟩ : ∃ before last, read = before ++ [last] :=
    ⟨_, _, (List.dropLast_concat_getLast hread).symm⟩
  have hnext : (before ++ [last] ++ tail)[before.length + 1]? = tail.head? := by
    rw [List.getElem?_append_right (by simp), List.head?_eq_getElem?]
    simp
  have hspace : tail.head?.all (· == ' ') = true := by
    simpa [Option.all_eq_true] using htail
  rw [endsWithQuote_concat, closesAt, List.length_append, List.length_singleton,
    Nat.add_sub_cancel, hnext, hspace]
  simp

/-- A literal that is still open after its last character ends nowhere in front of it. -/
theorem closesAt_open {quote : Char} {read tail : List Char}
    (hopen : QuotedText.endsWithQuote quote read = false) (htail : ∀ c ∈ tail.head?, c = ' ')
    (hread : ∀ position < read.length - 1, closesAt quote (read ++ tail) position = false)
    {position : Nat} (hposition : position < read.length) :
    closesAt quote (read ++ tail) position = false := by
  by_cases hend : position = read.length - 1
  · have hne : read ≠ [] := List.ne_nil_of_length_pos (by omega)
    rw [hend, closesAt_last quote hne htail, hopen]
  · exact hread position (by omega)

/-- No literal ends inside a fragment. -/
theorem closesAt_inside (quote : Char) (read : List Char) {piece : List Char} (tail : List Char)
    (hpiece : ' ' ∉ piece) {position : Nat} (hstart : read.length ≤ position + 1)
    (hend : position + 1 < (read ++ piece).length) :
    closesAt quote (read ++ piece ++ tail) position = false := by
  obtain ⟨c, hc⟩ : ∃ c, piece[position + 1 - read.length]? = some c := by
    rw [List.length_append] at hend
    exact ⟨_, List.getElem?_eq_getElem (by omega)⟩
  have hnext : (read ++ piece ++ tail)[position + 1]? = some c := by
    rw [List.getElem?_append_left hend, List.getElem?_append_right hstart, hc]
  have hspace : c ≠ ' ' := ne_of_mem_of_not_mem (List.mem_of_getElem? hc) hpiece
  simp [closesAt, -List.append_assoc, hnext, hspace]

/-- A literal ends at the first position that closes it. -/
theorem closing?_eq_some {quote : Char} {text : List Char} {position : Nat}
    (h : closesAt quote text position = true)
    (hfirst : ∀ earlier < position, closesAt quote text earlier = false) :
    closing? quote text = some position := by
  have hposition : position < text.length := by
    have hquote : text[position]? = some quote := by
      simp only [closesAt, Bool.and_eq_true, beq_iff_eq] at h
      exact h.1.1
    exact (List.getElem?_eq_some_iff.1 hquote).1
  exact List.find?_range_eq_some.2 ⟨h, List.mem_range.2 hposition, fun earlier hlt => by
    simp [hfirst earlier hlt]⟩

/-- A literal that no position closes has no end. -/
theorem closing?_eq_none {quote : Char} {text : List Char}
    (h : ∀ position < text.length, closesAt quote text position = false) :
    closing? quote text = none :=
  List.find?_range_eq_none.2 fun position hlt => by simp [h position hlt]

/-! ## Fragments -/

/-- The text of fragments, each behind a space. -/
def respaced (fragments : List (List Char)) : List Char := fragments.flatMap (' ' :: ·)

@[simp] theorem respaced_cons (fragment : List Char) (rest : List (List Char)) :
    respaced (fragment :: rest) = ' ' :: (fragment ++ respaced rest) := rfl

/-- In front of a fragment stands a space. -/
theorem head?_respaced {fragments : List (List Char)} {c : Char}
    (h : c ∈ (respaced fragments).head?) : c = ' ' := by
  cases fragments with
  | nil => simp [respaced] at h
  | cons fragment rest => simpa using h.symm

/-- A text is made of the pieces between its spaces. -/
theorem respaced_splitOn (text : List Char) : respaced (text.splitOn ' ') = ' ' :: text := by
  induction text with
  | nil => rfl
  | cons c rest ih =>
    obtain ⟨piece, pieces, hpieces⟩ := List.exists_cons_of_ne_nil (List.splitOn_ne_nil ' ' rest)
    rw [hpieces, respaced_cons] at ih
    rw [List.splitOn_cons_eq_if_modifyHead, hpieces]
    split
    · next hspace =>
      obtain rfl : c = ' ' := by simpa using hspace
      rw [respaced_cons, respaced_cons, ih, List.nil_append]
    · rw [List.modifyHead_cons, respaced_cons, List.cons_append, (List.cons.inj ih).2]

/-- The token of a fragment that opens no literal is that of an item. -/
theorem ofWord?_cons {first : Char} (hquote : ¬(first = '"' ∨ first = '\'')) (line : Nat)
    (text : List Char) : ofWord? line (first :: text) = some (ofItem line first text) := by
  rw [ofWord?, ofItem, TokenKind.startedBy]
  split_ifs <;> simp_all [TokenKind.isMarked]

/-- A fragment that opens no literal is an item by itself. -/
theorem ofFragments_item {first : Char} (hquote : ¬(first = '"' ∨ first = '\'')) (line : Nat)
    (text : List Char) (rest : List (List Char)) :
    ofFragments line none ((first :: text) :: rest) =
      (ofFragments line none rest).map (ofItem line first text :: ·) := by
  have hopen : QuotedText.open? (first :: text) = none := by
    rw [QuotedText.open?]
    all_goals simp_all
  simp only [ofFragments, Option.map_none, Option.none_or, hopen, ofWord?_cons hquote]

/-- A fragment with a quote in front opens a literal, and may close it. -/
theorem ofFragments_quote {quote : Char} (hquote : quote = '"' ∨ quote = '\'') (line : Nat)
    (text : List Char) (rest : List (List Char)) :
    ofFragments line none ((quote :: text) :: rest) =
      if QuotedText.endsWithQuote quote text then
        (ofFragments line none rest).map ((QuotedText.mk quote (quote :: text)).token line :: ·)
      else ofFragments line (some ⟨quote, quote :: text⟩) rest := by
  have hopen : QuotedText.open? (quote :: text) = some ⟨quote, quote :: text⟩ := by
    rcases hquote with rfl | rfl <;> rfl
  rw [ofFragments, Option.map_none, Option.none_or, hopen]
  rfl

/-- A literal that its last character closes is read as it is scanned. -/
theorem scan_closed {quote : Char} (hquote : quote = '"' ∨ quote = '\'') (line : Nat)
    {read tail : List Char} (hclosed : QuotedText.endsWithQuote quote read = true)
    (htail : ∀ c ∈ tail.head?, c = ' ')
    (hread : ∀ position < read.length - 1, closesAt quote (read ++ tail) position = false) :
    scan line (quote :: (read ++ tail)) =
      (scan line tail).map ((QuotedText.mk quote (quote :: read)).token line :: ·) := by
  have hne : read ≠ [] := by
    rintro rfl
    simp [QuotedText.endsWithQuote] at hclosed
  have hlength : read.length - 1 + 1 = read.length :=
    Nat.sub_add_cancel (List.length_pos_iff.2 hne)
  have hclosing := closing?_eq_some ((closesAt_last quote hne htail).trans hclosed) hread
  have hvalue : (read ++ tail).take (read.length - 1) = read.dropLast := by
    rw [List.take_append_of_le_length (by omega), List.dropLast_eq_take]
  have hkind : (QuotedText.mk quote (quote :: read)).kind = .startedBy quote := by
    rcases hquote with rfl | rfl <;> rfl
  rw [scan_quote hquote, hclosing]
  simp only [hlength, List.drop_left, hvalue, QuotedText.token, hkind, List.tail_cons]

/-- A literal that nothing closes is reported with the whole text behind its quote. -/
theorem scan_unclosed {quote : Char} (hquote : quote = '"' ∨ quote = '\'') (line : Nat)
    {read : List Char} (hread : ∀ position < read.length, closesAt quote read position = false) :
    scan line (quote :: read) =
      .error (.unterminatedLiteral ((QuotedText.mk quote (quote :: read)).rawToken line)) := by
  have hkind : (QuotedText.mk quote (quote :: read)).kind = .startedBy quote := by
    rcases hquote with rfl | rfl <;> rfl
  rw [scan_quote hquote, closing?_eq_none hread]
  simp only [QuotedText.rawToken, hkind]

/-- A literal of which `read` has been read goes on with the fragments behind it as it is scanned.
Its last character may close it, but none before. -/
theorem ofFragments_opened {quote : Char} (hquote : quote = '"' ∨ quote = '\'') (line : Nat)
    {rest : List (List Char)} (hpieces : ∀ piece ∈ rest, ' ' ∉ piece)
    (hrest : ∀ later, later <:+ rest → ofFragments line none later = scan line (respaced later))
    (read : List Char)
    (hread : ∀ position < read.length - 1,
      closesAt quote (read ++ respaced rest) position = false) :
    (if QuotedText.endsWithQuote quote read then
      (ofFragments line none rest).map ((QuotedText.mk quote (quote :: read)).token line :: ·)
      else ofFragments line (some ⟨quote, quote :: read⟩) rest) =
      scan line (quote :: (read ++ respaced rest)) := by
  -- The fragments are taken in one by one; `read` grows by a space and a fragment.
  induction rest generalizing read with
  | nil =>
    split
    · next hclosed =>
      rw [scan_closed hquote line hclosed (fun c hc => head?_respaced hc) hread,
        hrest [] List.suffix_rfl]
    · next hopen =>
      have hnone : ∀ position < read.length, closesAt quote read position = false := by
        intro position hlt
        simpa [respaced] using closesAt_open (by simpa using hopen)
          (fun c hc => head?_respaced hc) hread hlt
      have hread' : read ++ respaced [] = read := List.append_nil read
      rw [hread', scan_unclosed hquote line hnone]
      rfl
  | cons piece rest ih =>
    split
    · next hclosed =>
      rw [scan_closed hquote line hclosed (fun c hc => head?_respaced hc) hread,
        hrest _ List.suffix_rfl]
    · next hopen =>
      have hlonger := ih (fun piece' hmem => hpieces piece' (.tail _ hmem))
        (fun later hlater => hrest later (hlater.trans (List.suffix_cons piece rest)))
        (read ++ ' ' :: piece)
      have hspaced : read ++ respaced (piece :: rest) = read ++ ' ' :: piece ++ respaced rest := by
        simp
      rw [hspaced] at hread ⊢
      rw [← hlonger fun position hlt => ?_]
      · rfl
      by_cases hlt' : position < read.length
      · have htail : ∀ c ∈ (' ' :: piece ++ respaced rest).head?, c = ' ' := by simp
        rw [List.append_assoc] at hread ⊢
        exact closesAt_open (by simpa using hopen) htail hread hlt'
      · have hgrown : read ++ ' ' :: piece = read ++ [' '] ++ piece := by simp
        rw [hgrown] at hlt ⊢
        have hstart : (read ++ [' ']).length ≤ position + 1 := by
          rw [List.length_append, List.length_singleton]
          omega
        exact closesAt_inside quote _ _ (hpieces piece (.head _)) hstart (by omega)

/-- Fragments are read as their text is scanned. -/
theorem ofFragments_eq_scan (line : Nat) {fragments : List (List Char)}
    (hfragments : ∀ fragment ∈ fragments, ' ' ∉ fragment) :
    ofFragments line none fragments = scan line (respaced fragments) := by
  -- A literal takes in any number of fragments, so the induction is over all the rests of a line.
  suffices h : ∀ rest, rest <:+ fragments → ofFragments line none rest = scan line (respaced rest)
    from h fragments List.suffix_rfl
  induction fragments with
  | nil =>
    intro rest hrest
    rw [List.suffix_nil.1 hrest, respaced, List.flatMap_nil, scan_nil]
    rfl
  | cons fragment others ih =>
    have hothers := ih fun piece hmem => hfragments piece (.tail _ hmem)
    intro rest hrest
    rcases List.suffix_cons_iff.1 hrest with rfl | hrest
    · rw [respaced_cons, scan_space]
      cases fragment with
      | nil =>
        rw [List.nil_append, ← hothers others List.suffix_rfl]
        rfl
      | cons first text =>
        have hspace : ' ' ∉ first :: text := hfragments _ (.head _)
        have htext : ' ' ∉ text := fun hmem => hspace (.tail _ hmem)
        rw [List.cons_append]
        by_cases hquote : first = '"' ∨ first = '\''
        · rw [ofFragments_quote hquote]
          refine ofFragments_opened hquote line (fun piece hmem => hfragments piece (.tail _ hmem))
            hothers text fun position hlt => ?_
          exact closesAt_inside first [] _ htext (by simp) (by rw [List.nil_append]; omega)
        · have hfirst : first ≠ ' ' := fun h => hspace (h ▸ .head _)
          rw [ofFragments_item hquote, hothers others List.suffix_rfl,
            scan_item hfirst hquote line htext fun c hc => head?_respaced hc]
    · exact hothers rest hrest

/-- A text is read as it is scanned. -/
theorem ofFragments_splitOn (line : Nat) (text : List Char) :
    ofFragments line none (text.splitOn ' ') = scan line text := by
  rw [ofFragments_eq_scan line fun fragment hmem => not_mem_of_mem_splitOn hmem,
    respaced_splitOn, scan_space]

/-- A line is read as what is left of it without line end and tabs is scanned. -/
theorem ofLine_eq_scan (number : Nat) (line : List Char) :
    ofLine number line = scan number ((withoutLineEnd line).filter (· != '\t')) := by
  rw [ofLine, fragments, splitOn_filter rfl, ofFragments_splitOn]

/-- What is dropped at the end of a line. -/
theorem withoutLineEnd_eq_rdropWhile (line : List Char) :
    withoutLineEnd line = line.rdropWhile fun c => c = '\n' ∨ c = '\r' := by
  simp only [withoutLineEnd, List.rdropWhile, Bool.decide_or, Bool.beq_eq_decide_eq]

/-- **The tokens of a line are the items that one pass from left to right finds**, and a line with
an open literal fails with the same error. -/
theorem ofLine_eq_scanLine (number : Nat) (line : List Char) :
    ofLine number line = scanLine number line := by
  have htabs : (fun c : Char => decide (c ≠ '\t')) = (· != '\t') := by
    funext c
    exact decide_not.trans (congrArg not (Bool.beq_eq_decide_eq c '\t').symm)
  rw [ofLine_eq_scan, scanLine, withoutLineEnd_eq_rdropWhile, htabs]

end Token

end ChainIR
