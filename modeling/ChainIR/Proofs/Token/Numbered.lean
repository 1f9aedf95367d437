import Mathlib
import ChainIR.Source
import ChainIR.Token.Line

/-! # The numbers of lines in their tokens

The number of a line stands in all of its tokens and in the error of a line that cannot be cut into
tokens, and nothing else of them depends on it (`Token.ofLine_onLine`). So the tokens of a line are
known up to its number without the place where it stands (`SourceLine.tokens?`). -/

namespace ChainIR

namespace Token

/-- The token on another line. -/
def onLine (number : Nat) (token : Token) : Token := { token with line := number }

@[simp] theorem onLine_onLine (number other : Nat) (token : Token) :
    (token.onLine other).onLine number = token.onLine number := rfl

@[simp] theorem onLine_isWord (number : Nat) (token : Token) (word : String) :
    (token.onLine number).isWord word = token.isWord word := rfl

end Token

/-- The error on another line. -/
def LexError.onLine (number : Nat) : LexError → LexError
  | .undecodable => .undecodable
  | .unterminatedLiteral token => .unterminatedLiteral (token.onLine number)

namespace Token

/-- The number of the line is the only thing that changes if fragments stand on another line. -/
theorem ofFragments_onLine (number other : Nat) (pending : Option QuotedText)
    (fragments : List (List Char)) : ofFragments number pending fragments =
      ((ofFragments other pending fragments).map (List.map (onLine number))).mapError
        (LexError.onLine number) := by
  have hword (fragment : List Char) :
      ofWord? number fragment = (ofWord? other fragment).map (onLine number) := by
    cases fragment with
    | nil => rfl
    | cons first rest =>
      rw [ofWord?, ofWord?]
      split_ifs <;> rfl
  -- a token in front of the others
  have hcons (first : Token) (rest : Except LexError (List Token)) :
      ((rest.map (List.map (onLine number))).mapError (LexError.onLine number)).map
          (first.onLine number :: ·) =
        ((rest.map (first :: ·)).map (List.map (onLine number))).mapError
          (LexError.onLine number) := by
    cases rest <;> rfl
  induction fragments generalizing pending with
  | nil => cases pending <;> rfl
  | cons fragment rest ih =>
    rw [ofFragments, ofFragments]
    split
    · next literal _ =>
      split
      · rw [ih none]
        exact hcons (literal.token other) _
      · exact ih (some literal)
    · rw [hword fragment]
      cases ofWord? other fragment with
      | none => exact ih none
      | some token =>
        rw [Option.map_some, ih none]
        exact hcons token _

/-- **Tokens do not rest on the number of the line**: it is the only thing that changes if a line
stands at another place. -/
theorem ofLine_onLine (number other : Nat) (line : List Char) : ofLine number line =
    ((ofLine other line).map (List.map (onLine number))).mapError (LexError.onLine number) :=
  ofFragments_onLine number other none _

/-- The tokens of a line bear its number. -/
theorem line_of_ofLine {number : Nat} {line : List Char} {tokens : List Token}
    (h : ofLine number line = .ok tokens) : ∀ token ∈ tokens, token.line = number := by
  have hsame := ofLine_onLine number number line
  rw [h] at hsame
  have htokens : tokens = tokens.map (onLine number) := Except.ok.inj hsame
  rw [htokens]
  simp [onLine]

/-- The token in the error of a line bears its number. -/
theorem line_of_ofLine_error {number : Nat} {line : List Char} {token : Token}
    (h : ofLine number line = .error (.unterminatedLiteral token)) : token.line = number := by
  have hsame := ofLine_onLine number number line
  rw [h] at hsame
  have htoken : token = token.onLine number :=
    LexError.unterminatedLiteral.inj (Except.error.inj hsame)
  rw [htoken, onLine]

end Token

/-- The tokens of a physical line, if it can be cut into tokens; they bear the number zero. -/
def SourceLine.tokens? : SourceLine → Option (List Token)
  | .undecodable => none
  | .text characters => (Token.ofLine 0 characters).toOption

namespace SourceLine

variable {characters : List Char} {tokens : List Token}

/-- The tokens of a line are those that it has on line 0. -/
theorem tokens?_text_eq_some :
    (text characters).tokens? = some tokens ↔ Token.ofLine 0 characters = .ok tokens := by
  rw [tokens?]
  cases Token.ofLine 0 characters <;> simp [Except.toOption]

/-- The tokens of a line bear its number wherever it stands. -/
theorem ofLine_of_tokens? (h : (text characters).tokens? = some tokens) (number : Nat) :
    Token.ofLine number characters = .ok (tokens.map (Token.onLine number)) := by
  rw [Token.ofLine_onLine number 0, tokens?_text_eq_some.1 h]
  rfl

/-- A line that can be cut into tokens somewhere can be cut into tokens anywhere. -/
theorem exists_tokens?_of_ofLine {number : Nat} (h : Token.ofLine number characters = .ok tokens) :
    ∃ unnumbered, (text characters).tokens? = some unnumbered ∧
      tokens = unnumbered.map (Token.onLine number) := by
  have hzero := Token.ofLine_onLine 0 number characters
  rw [h] at hzero
  have hunnumbered : (text characters).tokens? = some (tokens.map (Token.onLine 0)) :=
    tokens?_text_eq_some.2 hzero
  exact ⟨_, hunnumbered, Except.ok.inj (h.symm.trans (ofLine_of_tokens? hunnumbered number))⟩

end SourceLine

end ChainIR
