import Mathlib
import ChainIR.Proofs.Token.Numbered
import ChainIR.Proofs.Token.Scanner
import ChainIR.Token.Stream

/-! # What a token stream delivers

A file is cut into lines (`Cut`), and a stream passes the lines that hold nothing but blanks. All
other lines are delivered in order, whether they have tokens or fail, each by one call, and behind
the last of them the end is delivered for ever (`TokenStream.delivers_each_line`).

* `SourceLine.outcome`, `SourceLine.isDelivered`: what a line gives, and whether it gives anything.
* `Source.delivered`, `Source.lineNumber`: the places of the lines that are delivered, and how many
  lines are counted up to a place.
* `TokenStream.behind`: a stream after some calls. -/

namespace ChainIR

/-! ## Cutting into lines -/

section Cutting

universe u

variable {α : Type u}

/-- A sequence is cut into pieces: each goes up to the first terminator, which is dropped, and a
last one without terminator counts unless it is empty. -/
inductive Cut (terminator : α) : List α → List (List α) → Prop
  /-- Nothing is left. -/
  | nil : Cut terminator [] []
  /-- What is left has no terminator. -/
  | last {piece : List α} : piece ≠ [] → terminator ∉ piece → Cut terminator piece [piece]
  /-- A piece ends at the first terminator that is left. -/
  | cons {piece rest : List α} {pieces : List (List α)} :
    terminator ∉ piece → Cut terminator rest pieces →
      Cut terminator (piece ++ terminator :: rest) (piece :: pieces)

variable [DecidableEq α]

/-- The pieces before each terminator are those of the cut. -/
theorem cut_terminated (terminator : α) (items : List α) :
    Cut terminator items (terminated terminator items) := by
  by_cases hmem : terminator ∈ items
  · obtain ⟨piece, rest, hitems, hpiece⟩ := List.eq_append_cons_of_mem hmem
    have hshorter : rest.length < items.length := by
      rw [hitems, List.length_append, List.length_cons]
      omega
    rw [hitems, terminated_append_cons hpiece]
    exact .cons hpiece (cut_terminated terminator rest)
  · cases items with
    | nil => exact .nil
    | cons first rest =>
      rw [terminated_of_not_mem hmem (List.cons_ne_nil _ _)]
      exact .last (List.cons_ne_nil _ _) hmem
termination_by items.length

end Cutting

/-- A line is undecodable just if its bytes are those of no text. -/
theorem Source.lineOfBytes_eq_undecodable_iff {bytes : List UInt8} :
    lineOfBytes bytes = .undecodable ↔ ∀ text : String, text.toByteArray ≠ ⟨bytes.toArray⟩ := by
  rw [lineOfBytes, String.fromUTF8?]
  by_cases hvalid : ByteArray.IsValidUTF8 ⟨bytes.toArray⟩
  · rw [dif_pos hvalid]
    exact iff_of_false nofun fun h => h (String.fromUTF8 _ hvalid) rfl
  · rw [dif_neg hvalid]
    refine iff_of_true rfl fun text htext => hvalid ?_
    rw [← htext]
    exact text.isValidUTF8

/-! ## Lines without tokens -/

namespace Token

/-- A text has no tokens just if it is made of spaces. -/
theorem scan_eq_nil_iff {number : Nat} {text : List Char} :
    scan number text = .ok [] ↔ ∀ c ∈ text, c = ' ' := by
  induction text with
  | nil => simp [scan_nil]
  | cons first rest ih =>
    by_cases hspace : first = ' '
    · subst hspace
      rw [scan_space, ih]
      simp
    · have hcons (token : Token) (others : Except LexError (List Token)) :
          others.map (token :: ·) ≠ .ok [] := by cases others <;> simp [Except.map]
      refine iff_of_false ?_ fun h => hspace (h first (.head _))
      rw [scan, if_neg hspace]
      split
      · split
        · exact hcons _ _
        · simp
      · exact hcons _ _

/-- A line has no tokens just if it is made of spaces and tabs, up to its line end. -/
theorem ofLine_eq_nil_iff {number : Nat} {line : List Char} :
    ofLine number line = .ok [] ↔ ∀ c ∈ withoutLineEnd line, c = ' ' ∨ c = '\t' := by
  rw [ofLine_eq_scan, scan_eq_nil_iff]
  simp only [List.mem_filter, bne_iff_ne]
  exact forall_congr' fun c => by tauto

end Token

namespace SourceLine

/-- Whether the line is text; the lines that are text are counted. -/
def isText : SourceLine → Bool
  | .text _ => true
  | .undecodable => false

/-- What the line gives if it bears the number `number`: its tokens or its error. -/
def outcome (number : Nat) : SourceLine → Except LexError (List Token)
  | .text characters => Token.ofLine number characters
  | .undecodable => .error .undecodable

/-- Whether a stream delivers the line, because it fails or has tokens. -/
def isDelivered (line : SourceLine) : Bool := line.tokens? != some []

/-- The lines that are passed are text of spaces and tabs, up to the line end. -/
theorem isDelivered_eq_false_iff {line : SourceLine} : line.isDelivered = false ↔
    ∃ characters, line = .text characters ∧
      ∀ c ∈ Token.withoutLineEnd characters, c = ' ' ∨ c = '\t' := by
  rw [isDelivered, bne_eq_false_iff_eq]
  cases line with
  | text characters =>
    rw [tokens?_text_eq_some, Token.ofLine_eq_nil_iff]
    simp
  | undecodable => exact iff_of_false nofun (by simp)

/-- The lines that are delivered fail or have tokens, whatever their number. -/
theorem isDelivered_iff {line : SourceLine} (number : Nat) :
    line.isDelivered = true ↔ line.outcome number ≠ .ok [] := by
  cases line with
  | undecodable => exact iff_of_true rfl nofun
  | text characters =>
    rw [isDelivered, bne_iff_ne, ne_eq, tokens?_text_eq_some, outcome, ne_eq,
      Token.ofLine_eq_nil_iff, Token.ofLine_eq_nil_iff]

end SourceLine

namespace Source

/-- The places of the lines that a stream delivers, in order. -/
def delivered (source : Source) : List Nat := source.findIdxs SourceLine.isDelivered

/-- The number of the line at a place: how many lines are counted up to and with it. -/
def lineNumber (source : Source) (place : Nat) : Nat :=
  (source.take (place + 1)).countP SourceLine.isText

/-- Whether the first line is delivered, and the places of the others behind it. -/
theorem delivered_cons (line : SourceLine) (source : Source) :
    delivered (line :: source) =
      if line.isDelivered then 0 :: (delivered source).map (· + 1)
      else (delivered source).map (· + 1) := by
  rw [delivered, List.findIdxs_cons, List.findIdxs_start]
  rfl

/-- The number of a line counts the lines of text in front of it. -/
theorem lineNumber_cons_succ (line : SourceLine) (source : Source) (place : Nat) :
    lineNumber (line :: source) (place + 1) =
      [line].countP SourceLine.isText + lineNumber source place := by
  rw [lineNumber, List.take_succ_cons, lineNumber, ← List.countP_append, List.singleton_append]

end Source

/-! ## The calls -/

namespace TokenStream

/-- The tokens that an answer holds: those of a line, or the one in its error. -/
def tokensIn : Except LexError (List Token) → List Token
  | .ok tokens => tokens
  | .error (.unterminatedLiteral token) => [token]
  | .error .undecodable => []

/-- The stream after some calls. -/
def behind (stream : TokenStream) (calls : Nat) : TokenStream :=
  (fun current : TokenStream => current.next.2)^[calls] stream

/-- One call first, and the others from there. -/
theorem behind_succ (stream : TokenStream) (calls : Nat) :
    stream.behind (calls + 1) = stream.next.2.behind calls := rfl

/-- One call more, from where the others end. -/
theorem behind_succ' (stream : TokenStream) (calls : Nat) :
    stream.behind (calls + 1) = (stream.behind calls).next.2 :=
  Function.iterate_succ_apply' _ _ _

/-- The tokens of the outcome of a line bear the number of the line. -/
theorem line_of_mem_tokensIn_outcome {number : Nat} {line : SourceLine} {token : Token}
    (h : token ∈ tokensIn (line.outcome number)) : token.line = number := by
  cases line with
  | undecodable => exact absurd h List.not_mem_nil
  | text characters =>
    rw [SourceLine.outcome] at h
    cases houtcome : Token.ofLine number characters with
    | ok tokens =>
      rw [houtcome] at h
      exact Token.line_of_ofLine houtcome token h
    | error error =>
      rw [houtcome] at h
      cases error with
      | undecodable => exact absurd h List.not_mem_nil
      | unterminatedLiteral raw =>
        obtain rfl := List.mem_singleton.1 h
        exact Token.line_of_ofLine_error houtcome

variable {line : SourceLine} {rest : Source} {number : Nat}

/-- A line without tokens is counted and passed. -/
theorem next_of_passed (h : line.isDelivered = false) :
    next ⟨line :: rest, number⟩ = next ⟨rest, number + [line].countP SourceLine.isText⟩ := by
  rw [SourceLine.isDelivered, bne_eq_false_iff_eq] at h
  cases line with
  | undecodable => exact nomatch h
  | text characters =>
    have hnone := SourceLine.ofLine_of_tokens? h (number + 1)
    rw [List.map_nil] at hnone
    rw [next, nextFrom, hnone]
    rfl

/-- Any other line is the answer, and the stream goes on behind it. -/
theorem next_of_delivered (h : line.isDelivered = true) :
    next ⟨line :: rest, number⟩ =
      (line.outcome (number + [line].countP SourceLine.isText),
        ⟨rest, number + [line].countP SourceLine.isText⟩) := by
  cases line with
  | undecodable => rfl
  | text characters =>
    have hcount : [SourceLine.text characters].countP SourceLine.isText = 1 := rfl
    rw [next, nextFrom, SourceLine.outcome, hcount]
    split
    · next hnone => exact absurd hnone ((SourceLine.isDelivered_iff (number + 1)).1 h)
    · next htokens => rw [htokens]
    · next herror => rw [herror]

/-- A line that is passed changes the numbers only. -/
theorem next_behind_of_passed (h : line.isDelivered = false) (calls : Nat) :
    (behind ⟨line :: rest, number⟩ calls).next =
      (behind ⟨rest, number + [line].countP SourceLine.isText⟩ calls).next := by
  cases calls with
  | zero => exact next_of_passed h
  | succ calls => rw [behind_succ, behind_succ, next_of_passed h]

/-- As long as there are lines to deliver, each call delivers the next of them. -/
theorem next_behind_of_delivered {source : Source} {calls place : Nat}
    (h : source.delivered[calls]? = some place) (number : Nat) :
    ∃ line, source[place]? = some line ∧
      (behind ⟨source, number⟩ calls).next =
        (line.outcome (number + source.lineNumber place),
          ⟨source.drop (place + 1), number + source.lineNumber place⟩) := by
  -- the first line is either passed within a call or takes up the first call
  induction source generalizing number calls place with
  | nil => exact nomatch h
  | cons first rest ih =>
    rw [Source.delivered_cons] at h
    by_cases hfirst : first.isDelivered = true
    · rw [if_pos hfirst] at h
      cases calls with
      | zero =>
        obtain rfl : 0 = place := Option.some.inj h
        exact ⟨first, rfl, next_of_delivered hfirst⟩
      | succ calls =>
        rw [List.getElem?_cons_succ, List.getElem?_map, Option.map_eq_some_iff] at h
        obtain ⟨later, hlater, rfl⟩ := h
        obtain ⟨line, hline, hnext⟩ := ih hlater (number + [first].countP SourceLine.isText)
        refine ⟨line, hline, ?_⟩
        rw [behind_succ, next_of_delivered hfirst, hnext, Source.lineNumber_cons_succ,
          Nat.add_assoc, List.drop_succ_cons]
    · rw [if_neg hfirst, List.getElem?_map, Option.map_eq_some_iff] at h
      obtain ⟨later, hlater, rfl⟩ := h
      obtain ⟨line, hline, hnext⟩ := ih hlater (number + [first].countP SourceLine.isText)
      refine ⟨line, hline, ?_⟩
      rw [next_behind_of_passed (by simpa using hfirst), hnext, Source.lineNumber_cons_succ,
        Nat.add_assoc, List.drop_succ_cons]

/-- Behind the last line to deliver every call delivers the end. -/
theorem next_behind_of_length_le {source : Source} {calls : Nat}
    (h : source.delivered.length ≤ calls) (number : Nat) :
    (behind ⟨source, number⟩ calls).next =
      (.ok [.eof (number + source.countP SourceLine.isText)],
        ⟨[], number + source.countP SourceLine.isText⟩) := by
  induction source generalizing number calls with
  | nil =>
    induction calls with
    | zero => rfl
    | succ calls ih => exact ih (Nat.zero_le _)
  | cons first rest ih =>
    have hcount : number + (first :: rest).countP SourceLine.isText =
        number + [first].countP SourceLine.isText + rest.countP SourceLine.isText := by
      rw [Nat.add_assoc, ← List.countP_append, List.singleton_append]
    rw [Source.delivered_cons] at h
    rw [hcount]
    by_cases hfirst : first.isDelivered = true
    · rw [if_pos hfirst, List.length_cons, List.length_map] at h
      obtain ⟨calls, rfl⟩ := Nat.exists_eq_add_one_of_ne_zero (Nat.ne_zero_of_lt h)
      rw [behind_succ, next_of_delivered hfirst]
      exact ih (Nat.le_of_succ_le_succ h) _
    · rw [if_neg hfirst, List.length_map] at h
      rw [next_behind_of_passed (by simpa using hfirst)]
      exact ih h _

/-- All tokens of an answer bear the number of lines that are counted behind it. -/
theorem line_of_mem_tokensIn_behind (source : Source) (number calls : Nat) {token : Token}
    (h : token ∈ tokensIn (behind ⟨source, number⟩ calls).next.1) :
    token.line = (behind ⟨source, number⟩ (calls + 1)).line := by
  rw [behind_succ']
  cases hplace : source.delivered[calls]? with
  | some place =>
    obtain ⟨line, -, hnext⟩ := next_behind_of_delivered hplace number
    rw [hnext] at h ⊢
    exact line_of_mem_tokensIn_outcome h
  | none =>
    have hnext := next_behind_of_length_le (List.getElem?_eq_none_iff.1 hplace) number
    rw [hnext] at h ⊢
    obtain rfl := List.mem_singleton.1 h
    rfl

/-- **A token stream delivers each line of a file that has tokens or fails, in order and once, and
then the end for ever.** The lines of a file end at its line feeds; those of spaces and tabs are
passed. Whatever fails, the calls behind it go on with the following lines. Behind each answer the
stream has counted the lines that are text up to there, and all tokens of the answer bear this
number. -/
theorem delivers_each_line (bytes : List UInt8) :
    let source := Source.ofBytes bytes
    let stream : TokenStream := ⟨source, 0⟩
    (∃ pieces, Cut 10 bytes pieces ∧ source = pieces.map Source.lineOfBytes) ∧
      (∀ piece, Source.lineOfBytes piece = .undecodable ↔
        ∀ text : String, text.toByteArray ≠ ⟨piece.toArray⟩) ∧
      (∀ (line : SourceLine) (number : Nat),
        line.isDelivered = true ↔ line.outcome number ≠ .ok []) ∧
      (∀ line : SourceLine, line.isDelivered = false ↔ ∃ characters, line = .text characters ∧
        ∀ c ∈ Token.withoutLineEnd characters, c = ' ' ∨ c = '\t') ∧
      (∀ calls place, source.delivered[calls]? = some place → ∃ line, source[place]? = some line ∧
        (stream.behind calls).next.1 = line.outcome (source.lineNumber place) ∧
        stream.behind (calls + 1) = ⟨source.drop (place + 1), source.lineNumber place⟩) ∧
      (∀ calls, source.delivered.length ≤ calls →
        (stream.behind calls).next.1 = .ok [.eof (source.countP SourceLine.isText)]) ∧
      ∀ calls, ∀ token ∈ tokensIn (stream.behind calls).next.1,
        token.line = (stream.behind (calls + 1)).line := by
  intro source stream
  refine ⟨⟨terminated 10 bytes, cut_terminated 10 bytes, rfl⟩,
    fun piece => Source.lineOfBytes_eq_undecodable_iff,
    fun line number => SourceLine.isDelivered_iff number,
    fun line => SourceLine.isDelivered_eq_false_iff, fun calls place h => ?_, fun calls h => ?_,
    fun calls token => line_of_mem_tokensIn_behind source 0 calls⟩
  · obtain ⟨line, hline, hnext⟩ := next_behind_of_delivered h 0
    rw [Nat.zero_add] at hnext
    exact ⟨line, hline, congrArg Prod.fst hnext,
      (behind_succ' _ _).trans (congrArg Prod.snd hnext)⟩
  · have hnext := next_behind_of_length_le h 0
    rw [Nat.zero_add] at hnext
    exact congrArg Prod.fst hnext

/-- A word in front of a carriage return, an empty line, an open literal, a byte that is no text, a
line of blanks and a word without line feed behind it: four of these six lines are delivered. The
line behind the two that fail bears the number five, since one of them is not counted. -/
theorem delivers_each_line_mixed :
    let source := Source.ofBytes [97, 13, 10, 10, 34, 120, 10, 255, 10, 32, 9, 10, 114, 101, 116]
    let stream : TokenStream := ⟨source, 0⟩
    source.delivered = [0, 2, 3, 5] ∧
      (stream.behind 1).next.1 = .error (.unterminatedLiteral ⟨.string, "\"x", 3⟩) ∧
      (stream.behind 2).next.1 = .error .undecodable ∧
      (stream.behind 3).next.1 = .ok [⟨.identifier, "ret", 5⟩] ∧
      (stream.behind 4).next.1 = .ok [.eof 5] := by
  intro source stream
  have hdelivered : source.delivered = [0, 2, 3, 5] := by decide +kernel
  obtain ⟨-, -, -, -, hlines, hend, -⟩ := delivers_each_line
    [97, 13, 10, 10, 34, 120, 10, 255, 10, 32, 9, 10, 114, 101, 116]
  have hline (calls place : Nat) (line : SourceLine)
      (hplace : source.delivered[calls]? = some place) (hfound : source[place]? = some line) :
      (stream.behind calls).next.1 = line.outcome (source.lineNumber place) := by
    obtain ⟨found, hsame, hanswer, -⟩ := hlines calls place hplace
    rwa [Option.some.inj (hfound.symm.trans hsame)]
  refine ⟨hdelivered, ?_, ?_, ?_, ?_⟩
  · exact (hline 1 2 (.text ['"', 'x']) (by rw [hdelivered]; rfl) (by decide +kernel)).trans
      (by decide +kernel)
  · exact (hline 2 3 .undecodable (by rw [hdelivered]; rfl) (by decide +kernel)).trans
      (by decide +kernel)
  · exact (hline 3 5 (.text ['r', 'e', 't']) (by rw [hdelivered]; rfl) (by decide +kernel)).trans
      (by decide +kernel)
  · exact (hend 4 (by rw [hdelivered]; decide)).trans (by decide +kernel)

end TokenStream

end ChainIR
