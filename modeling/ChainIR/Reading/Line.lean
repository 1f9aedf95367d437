import ChainIR.Reading.Error

/-! # Reading along a line

A line is read token by token, from left to right, while the program is built. The steps here
look at the next token, take it, and say what was expected if it does not fit. -/

namespace ChainIR

/-- Where the reading of a line stands. -/
structure LineState where
  /-- The number of the line. -/
  line : Nat
  /-- The tokens that are still to be read. -/
  tokens : List Token
  /-- The program built so far. -/
  program : Program

/-- A step along a line. -/
abbrev LineReader := StateT LineState (Except Failure)

namespace LineReader

/-- Reject the source. -/
def reject {α : Type} (error : ReadError) : LineReader α := throw (.rejected error)

/-- Edit the program. -/
def edit {α : Type} (step : Edit α) : LineReader α := fun state =>
  match step.run state.program with
  | .ok (answer, program) => .ok (answer, { state with program })
  | .error fault => .error (.fault fault)

/-- Ask the program. -/
def ask {α : Type} (query : Program → Except Fault α) : LineReader α := edit (Edit.ask query)

/-- The next token, `none` at the end of the line. -/
def peek? : LineReader (Option Token) := return (← get).tokens.head?

/-- Whether the line is at its end. -/
def atEnd : LineReader Bool := return (← get).tokens.isEmpty

/-- Whether the next token is the keyword or operator `word`. -/
def atWord (word : String) : LineReader Bool := return (← peek?).any (·.isWord word)

/-- Whether the next token is of a class. -/
def atKind (kind : TokenKind) : LineReader Bool := return (← peek?).any (·.kind == kind)

/-- Reject the next token, or the end of the line, in place of what was expected. -/
def unexpected {α : Type} (expected : String) : LineReader α := do
  match ← peek? with
  | some token => reject (.unexpectedToken token expected)
  | none => reject (.unexpectedEnd (← get).line expected)

/-- Take the next token, whatever it is; the end token is never taken. -/
def take (expected : String) : LineReader Token := do
  let state ← get
  match state.tokens with
  | [] => unexpected expected
  | token :: rest =>
    if token.isEof then unexpected expected
    else
      set { state with tokens := rest }
      return token

/-- Take the next token if it is the keyword or operator `word`. -/
def takeWord (word : String) : LineReader Token := do
  let expected := "`" ++ word ++ "`"
  if ← atWord word then take expected else unexpected expected

/-- Take the next token if it is of a class. -/
def takeKind (kind : TokenKind) : LineReader Token := do
  if ← atKind kind then take kind.text else unexpected kind.text

/-- Check that the line is at its end. -/
def finish : LineReader Unit := do
  if !(← atEnd) then unexpected "end of line"

end LineReader

end ChainIR
