import ChainIR.Program.Function

/-! # Cursors

A cursor is a place to append instructions: a function and the name of one of its labels. It
holds no part of a program, so any number of cursors may build one program. -/

namespace ChainIR

/-- Why nothing can be appended at a cursor. -/
inductive BuildError
  /-- The cursor has no function. -/
  | noFunction
  deriving DecidableEq

namespace BuildError

/-- What a build error says. -/
def message : BuildError → String
  | noFunction => "no function to insert into"

end BuildError

/-- A place to append instructions. -/
structure Cursor where
  /-- The function, `none` as long as no function has been chosen. -/
  function : Option FunctionRef := none
  /-- The name of the label. -/
  label : String := ""

namespace Cursor

/-- The cursor at a label of a function. -/
def start (function : FunctionRef) (label : String) : Cursor := ⟨some function, label⟩

/-- Go to another function; the name of the label stays. -/
def toFunction (cursor : Cursor) (function : FunctionRef) : Cursor :=
  { cursor with function := some function }

/-- Go to another label of the same function. -/
def toLabel (cursor : Cursor) (label : String) : Cursor := { cursor with label }

/-- Append an instruction at the cursor. -/
def append (cursor : Cursor) (instruction : InstructionRef) :
    Edit (Except BuildError InstructionRef) := do
  match cursor.function with
  | none => return .error .noFunction
  | some function =>
    Edit.append function cursor.label instruction
    return .ok instruction

/-- Create an instruction and append it at the cursor; without a function it is created all the
same and stays in no chain. -/
def appendNew (cursor : Cursor) (operation : Operation) :
    Edit (Except BuildError InstructionRef) := do
  cursor.append (← Edit.addInstruction operation)

end Cursor

end ChainIR
