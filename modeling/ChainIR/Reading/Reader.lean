import ChainIR.Program.Builtin
import ChainIR.Reading.Directive
import ChainIR.Source

/-! # Reading sources

A source is read line by line from the initial program. Reading stops at the first error; the log
records made until then are kept. -/

namespace ChainIR

/-- Where the reading of a source stands. -/
structure Reader where
  /-- The number of lines counted so far. -/
  line : Nat := 0
  /-- The position behind the last line. -/
  position : Position := {}
  /-- The program built so far. -/
  program : Program := Program.initial

namespace Reader

/-- Read the tokens of the line that has just been counted. -/
def readTokens (reader : Reader) (tokens : List Token) :
    Except Failure (Reader × Option LogRecord) :=
  match (LineReader.sourceLine reader.position).run ⟨reader.line, tokens, reader.program⟩ with
  | .ok ((position, record), state) =>
    .ok ({ reader with position, program := state.program }, record)
  | .error failure => .error failure

/-- Read a physical line. A line without tokens is counted and otherwise passed over. -/
def readLine (reader : Reader) : SourceLine → Except Failure (Reader × Option LogRecord)
  | .undecodable => .error (.rejected (.input .notUtf8))
  | .text characters =>
    let counted := { reader with line := reader.line + 1 }
    match Token.ofLine counted.line characters with
    | .error error => .error (.rejected (.ofLexError error))
    | .ok [] => .ok (counted, none)
    | .ok (token :: tokens) => counted.readTokens (token :: tokens)

/-- The program at the end of the source, unless a function is still open. -/
def close (reader : Reader) : Except Failure Program :=
  match reader.position.openFunction with
  | none => .ok reader.program
  | some name => .error (.rejected (.unterminatedFunction name))

end Reader

/-- What comes of reading a source. -/
structure Reading where
  /-- The log records, first to last. -/
  records : List LogRecord
  /-- The program, or why there is none. -/
  result : Except Failure Program

namespace Reading

/-- Put a record in front of the others. -/
def recorded (record : Option LogRecord) (reading : Reading) : Reading :=
  { reading with records := record.toList ++ reading.records }

/-- Read the rest of a source. -/
def ofLines (reader : Reader) : Source → Reading
  | [] => ⟨[], reader.close⟩
  | line :: rest =>
    match reader.readLine line with
    | .ok (next, record) => recorded record (ofLines next rest)
    | .error failure => ⟨[], .error failure⟩

/-- Read a source. -/
def ofSource (source : Source) : Reading := ofLines {} source

/-- Read a text. -/
def ofText (text : String) : Reading := ofSource (Source.ofText text)

/-- Read the bytes of a file, if there are any. -/
def ofInput : Except InputError (List UInt8) → Reading
  | .ok bytes => ofSource (Source.ofBytes bytes)
  | .error cause => ⟨[], .error (.rejected (.input cause))⟩

end Reading

end ChainIR
