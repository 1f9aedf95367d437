import ChainIR.Source
import ChainIR.Token.Line

/-! # Streams of token lines

A token stream delivers the lines of a source that have tokens, one at a time, and counts the
physical lines passed. A line that fails is passed as well, so the stream goes on behind it;
undecodable lines are not counted. At the end it delivers the end token again and again. -/

namespace ChainIR

/-- What is left of a source, and how many of its lines have been counted. -/
structure TokenStream where
  /-- The lines that are still to be read. -/
  rest : Source
  /-- The number of lines counted so far. -/
  line : Nat := 0

namespace TokenStream

/-- The next line with tokens of a source of which `line` lines have been counted. -/
def nextFrom (line : Nat) : Source → Except LexError (List Token) × TokenStream
  | [] => (.ok [.eof line], ⟨[], line⟩)
  | .undecodable :: rest => (.error .undecodable, ⟨rest, line⟩)
  | .text characters :: rest =>
    match Token.ofLine (line + 1) characters with
    | .ok [] => nextFrom (line + 1) rest
    | .ok (token :: tokens) => (.ok (token :: tokens), ⟨rest, line + 1⟩)
    | .error error => (.error error, ⟨rest, line + 1⟩)

/-- The next line with tokens, and the stream behind it. -/
def next (stream : TokenStream) : Except LexError (List Token) × TokenStream :=
  nextFrom stream.line stream.rest

end TokenStream

end ChainIR
