import Mathlib
import ChainIR.Proofs.Reading.Run
import ChainIR.Proofs.Token.Delivery
import ChainIR.Proofs.Token.Kinds

/-! # Reading from a token stream

`Reading.ofLines` counts the lines of a source and cuts them into tokens as it goes. A token stream
does both as well, so a reader can take its lines from a stream (`Reading.ofStream`): it asks for the
next line until the end token comes, and gives each line the number that the stream has counted.

The two ways to read give the same records, the same program and the same errors
(`Reading.ofLines_eq_ofStream`). So what a stream delivers, with which numbers, and how it goes on
is also what reading meets (`TokenStream.delivers_each_line`). -/

namespace ChainIR

/-! ## Asking for the next line -/

namespace TokenStream

/-- Whether a line is the one that a stream delivers at the end. -/
def isEnd (tokens : List Token) : Bool := tokens.head?.any Token.isEof

variable {stream behind : TokenStream} {tokens : List Token}

/-- The tokens of a text are not those of the end. -/
theorem isEnd_of_ofLine {number : Nat} {characters : List Char}
    (h : Token.ofLine number characters = .ok tokens) : isEnd tokens = false := by
  cases tokens with
  | nil => rfl
  | cons token rest => simpa [isEnd, Token.isEof] using Token.kind_ne_eof_of_ofLine h token (.head _)

/-- A line that is text is passed if it has no tokens, and delivered otherwise. -/
theorem next_text (number : Nat) (characters : List Char) (rest : Source) :
    next ⟨.text characters :: rest, number⟩ =
      match Token.ofLine (number + 1) characters with
      | .ok [] => next ⟨rest, number + 1⟩
      | .ok (token :: tokens) => (.ok (token :: tokens), ⟨rest, number + 1⟩)
      | .error error => (.error error, ⟨rest, number + 1⟩) := by
  rw [next, nextFrom]
  rfl

/-- A stream has fewer lines left behind each line that it delivers. -/
theorem length_lt_of_next (h : stream.next = (.ok tokens, behind)) (hmore : isEnd tokens = false) :
    behind.rest.length < stream.rest.length := by
  obtain ⟨source, number⟩ := stream
  induction source generalizing number with
  | nil =>
    obtain ⟨htokens, -⟩ := Prod.mk.inj h
    obtain rfl : [Token.eof number] = tokens := Except.ok.inj htokens
    exact absurd hmore (by simp [isEnd, Token.isEof, Token.eof])
  | cons line rest ih =>
    by_cases hline : line.isDelivered = true
    · rw [next_of_delivered hline] at h
      obtain ⟨-, rfl⟩ := Prod.mk.inj h
      exact Nat.lt_succ_self _
    · rw [next_of_passed (by simpa using hline)] at h
      exact (ih _ h).trans (Nat.lt_succ_self _)

end TokenStream

/-! ## Reading line after line -/

namespace Reading

/-- Read what a stream delivers, up to the end or to the first line that fails. -/
def ofStream (reader : Reader) (stream : TokenStream) : Reading :=
  match _hnext : stream.next with
  | (.error error, _) => ⟨[], .error (.rejected (.ofLexError error))⟩
  | (.ok tokens, behind) =>
    if _hend : TokenStream.isEnd tokens then ⟨[], reader.close⟩
    else
      match { reader with line := behind.line }.readTokens tokens with
      | .ok (next, record) => recorded record (ofStream next behind)
      | .error failure => ⟨[], .error failure⟩
termination_by stream.rest.length
decreasing_by exact TokenStream.length_lt_of_next _hnext (by simpa using _hend)

variable {reader : Reader} {stream behind : TokenStream} {tokens : List Token}

/-- A line that cannot be cut into tokens ends the reading. -/
theorem ofStream_of_error {error : LexError} (h : stream.next = (.error error, behind)) :
    ofStream reader stream = ⟨[], .error (.rejected (.ofLexError error))⟩ := by
  rw [ofStream]
  split
  · next other _ hother =>
    obtain rfl := Except.error.inj (Prod.mk.inj (h.symm.trans hother)).1
    rfl
  · next tokens _ htokens => exact absurd (Prod.mk.inj (h.symm.trans htokens)).1 (by simp)

/-- The end token ends the reading. -/
theorem ofStream_of_end (h : stream.next = (.ok tokens, behind))
    (hend : TokenStream.isEnd tokens = true) : ofStream reader stream = ⟨[], reader.close⟩ := by
  rw [ofStream]
  split
  · next error _ herror => exact absurd (Prod.mk.inj (h.symm.trans herror)).1 (by simp)
  · next other _ hother =>
    obtain rfl := Except.ok.inj (Prod.mk.inj (h.symm.trans hother)).1
    rw [dif_pos hend]

/-- Any other line is read with the number that the stream has counted. -/
theorem ofStream_of_tokens (h : stream.next = (.ok tokens, behind))
    (hmore : TokenStream.isEnd tokens = false) : ofStream reader stream =
      match { reader with line := behind.line }.readTokens tokens with
      | .ok (next, record) => recorded record (ofStream next behind)
      | .error failure => ⟨[], .error failure⟩ := by
  rw [ofStream]
  split
  · next error _ herror => exact absurd (Prod.mk.inj (h.symm.trans herror)).1 (by simp)
  · next other _ hother =>
    obtain ⟨htokens, rfl⟩ := Prod.mk.inj (h.symm.trans hother)
    obtain rfl := Except.ok.inj htokens
    rw [dif_neg (by simp [hmore])]

/-- What is read depends on the next line, and not on the number of lines counted before it. -/
theorem ofStream_of_next_eq {other : TokenStream} (h : stream.next = other.next) (line : Nat) :
    ofStream reader stream = ofStream { reader with line } other := by
  cases hother : other.next with
  | mk answer behind =>
    rw [hother] at h
    cases answer with
    | error error => rw [ofStream_of_error h, ofStream_of_error hother]
    | ok tokens =>
      cases hend : TokenStream.isEnd tokens with
      | true =>
        rw [ofStream_of_end h hend, ofStream_of_end hother hend]
        rfl
      | false => rw [ofStream_of_tokens h hend, ofStream_of_tokens hother hend]

/-- Reading the tokens of a line counts no further line. -/
theorem line_of_readTokens {next : Reader} {record : Option LogRecord}
    (h : reader.readTokens tokens = .ok (next, record)) : next.line = reader.line := by
  rw [Reader.readTokens] at h
  split at h
  · obtain ⟨rfl, -⟩ := Prod.mk.inj (Except.ok.inj h)
    rfl
  · cases h

/-- **Reading a source is reading what a token stream delivers of it**: the same lines are read, with
the same numbers, the same records and the same outcome. -/
theorem ofLines_eq_ofStream (reader : Reader) (source : Source) :
    ofLines reader source = ofStream reader ⟨source, reader.line⟩ := by
  induction source generalizing reader with
  | nil => exact (ofStream_of_end rfl rfl).symm
  | cons line rest ih =>
    rw [ofLines]
    cases line with
    | undecodable =>
      have hnext : TokenStream.next ⟨.undecodable :: rest, reader.line⟩ =
        (.error .undecodable, ⟨rest, reader.line⟩) := rfl
      exact (ofStream_of_error hnext).symm
    | text characters =>
      rw [Reader.readLine]
      dsimp only
      -- both ways go by what the line gives under the next number
      have hnext := TokenStream.next_text reader.line characters rest
      cases houtcome : Token.ofLine (reader.line + 1) characters with
      | error error =>
        rw [houtcome] at hnext
        rw [ofStream_of_error hnext]
      | ok tokens =>
        rw [houtcome] at hnext
        cases tokens with
        | nil =>
          rw [ofStream_of_next_eq hnext (reader.line + 1)]
          exact ih { reader with line := reader.line + 1 }
        | cons token tokens =>
          rw [ofStream_of_tokens hnext (TokenStream.isEnd_of_ofLine houtcome)]
          dsimp only
          cases hread : Reader.readTokens { reader with line := reader.line + 1 }
              (token :: tokens) with
          | error failure => rfl
          | ok result =>
            dsimp only
            rw [ih result.1, line_of_readTokens hread]

/-- A whole source is read from a stream that has counted no line yet. -/
theorem ofSource_eq_ofStream (source : Source) : ofSource source = ofStream {} ⟨source, 0⟩ :=
  ofLines_eq_ofStream {} source

end Reading

end ChainIR
