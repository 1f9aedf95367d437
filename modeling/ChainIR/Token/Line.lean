import ChainIR.Text.Escape
import ChainIR.Token

/-! # The tokens of a line

A line is cut at its spaces into fragments, and tabs are dropped. A fragment is a token by
itself, classed by its first character, unless it opens a literal: a literal takes in the
following fragments, with the spaces between them, up to the first that closes it. -/

namespace ChainIR

/-- Why a line has no tokens. -/
inductive LexError
  /-- The line is not valid UTF-8. -/
  | undecodable
  /-- The line ends inside a literal; the token holds its raw text. -/
  | unterminatedLiteral (token : Token)
  deriving DecidableEq

/-- A literal as far as it has been read. -/
structure QuotedText where
  /-- The quote that opens it, and that has to close it. -/
  quote : Char
  /-- The text with the opening quote. -/
  text : List Char

namespace QuotedText

/-- The literal that a fragment opens, if it starts with a quote. -/
def open? : List Char → Option QuotedText
  | '"' :: rest => some ⟨'"', '"' :: rest⟩
  | '\'' :: rest => some ⟨'\'', '\'' :: rest⟩
  | _ => none

/-- The literal with a space and one more fragment. -/
def extend (literal : QuotedText) (fragment : List Char) : QuotedText :=
  { literal with text := literal.text ++ ' ' :: fragment }

/-- Whether a text ends with a quote behind an even number of backslashes. -/
def endsWithQuote (quote : Char) (body : List Char) : Bool :=
  match body.reverse with
  | [] => false
  | last :: before => last == quote && (before.takeWhile (· == '\\')).length % 2 == 0

/-- Whether the literal is complete: its text behind the opening quote ends with a quote that is
not escaped. -/
def isClosed (literal : QuotedText) : Bool := endsWithQuote literal.quote literal.text.tail

/-- The class of the literal. -/
def kind (literal : QuotedText) : TokenKind := if literal.quote = '"' then .string else .char

/-- The token of a complete literal: what stands between its quotes, escapes resolved. -/
def token (literal : QuotedText) (line : Nat) : Token :=
  ⟨literal.kind, String.ofList (Escape.decode literal.text.tail.dropLast), line⟩

/-- The token that reports a literal without end. -/
def rawToken (literal : QuotedText) (line : Nat) : Token :=
  ⟨literal.kind, String.ofList literal.text, line⟩

end QuotedText

namespace Token

/-- The token of a fragment that opens no literal; an empty fragment has none. -/
def ofWord? (line : Nat) : List Char → Option Token
  | [] => none
  | first :: rest =>
    if first = '%' then some ⟨.register, String.ofList rest, line⟩
    else if first = '@' then some ⟨.block, String.ofList rest, line⟩
    else if first = '$' then some ⟨.global, String.ofList rest, line⟩
    else if first.isDigit ∨ first = '.' then some ⟨.number, String.ofList (first :: rest), line⟩
    else if first.isAlpha ∨ first = '_' then
      some ⟨.identifier, String.ofList (first :: rest), line⟩
    else some ⟨.operator, String.ofList (first :: rest), line⟩

/-- The tokens of the fragments that follow `pending`, the literal that is still open. -/
def ofFragments (line : Nat) (pending : Option QuotedText) :
    List (List Char) → Except LexError (List Token)
  | [] =>
    match pending with
    | none => .ok []
    | some literal => .error (.unterminatedLiteral (literal.rawToken line))
  | fragment :: rest =>
    match (pending.map (·.extend fragment)).or (QuotedText.open? fragment) with
    | some literal =>
      if literal.isClosed then (ofFragments line none rest).map (literal.token line :: ·)
      else ofFragments line (some literal) rest
    | none =>
      match ofWord? line fragment with
      | some token => (ofFragments line none rest).map (token :: ·)
      | none => ofFragments line none rest

/-- A line without the line feeds and carriage returns at its end. -/
def withoutLineEnd (line : List Char) : List Char :=
  (line.reverse.dropWhile fun c => c == '\n' || c == '\r').reverse

/-- The fragments of a line: what stands between its spaces, less the tabs. -/
def fragments (line : List Char) : List (List Char) :=
  (line.splitOn ' ').map (·.filter (· != '\t'))

/-- The tokens of the line with number `number`. -/
def ofLine (number : Nat) (line : List Char) : Except LexError (List Token) :=
  ofFragments number none (fragments (withoutLineEnd line))

end Token

end ChainIR
