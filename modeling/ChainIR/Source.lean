import ChainIR.Text.Lines

/-! # Source text as physical lines

A source is its physical lines, each without its line feed. A line whose bytes are not valid
UTF-8 is kept as `undecodable`. -/

namespace ChainIR

/-- A physical line. -/
inductive SourceLine
  /-- The characters of a line, without the line feed. -/
  | text (characters : List Char)
  /-- A line that is not valid UTF-8. -/
  | undecodable
  deriving DecidableEq

/-- The physical lines of a source in order. -/
abbrev Source := List SourceLine

namespace Source

/-- The lines of a text. -/
def ofText (text : String) : Source := (terminated '\n' text.toList).map .text

/-- One line from its bytes. -/
def lineOfBytes (bytes : List UInt8) : SourceLine :=
  match String.fromUTF8? ⟨bytes.toArray⟩ with
  | some text => .text text.toList
  | none => .undecodable

/-- The lines of a file from its bytes, cut at each line feed before they are decoded. -/
def ofBytes (bytes : List UInt8) : Source := (terminated 10 bytes).map lineOfBytes

end Source

end ChainIR
