import ChainIR.Program.Basic

/-! # Edits of programs

An edit is a step that changes a program and gives a result, or fails with a fault. All ways to
build a program are edits made of the few here: ask the program, allocate an entry, change an
entry. -/

namespace ChainIR

/-- A step on a program that may fail. -/
abbrev Edit := StateT Program (Except Fault)

namespace Edit

/-- Ask the program without changing it. -/
def ask {α : Type} (query : Program → Except Fault α) : Edit α := fun program =>
  (query program).map fun answer => (answer, program)

/-- Create a value. -/
def addValue (value : Value) : Edit ValueRef := fun program =>
  let (ref, values) := program.values.alloc value
  .ok (ref, { program with values })

/-- Create an instruction that is in no chain. -/
def addInstruction (operation : Operation) : Edit InstructionRef := fun program =>
  let (ref, instructions) := program.instructions.allocWith fun self => { self, operation }
  .ok (ref, { program with instructions })

/-- Create a label without instructions. -/
def addLabel (name : String) (function : FunctionRef) : Edit LabelRef := fun program =>
  let (ref, labels) := program.labels.allocWith fun self => { self, name, function }
  .ok (ref, { program with labels })

/-- Change an instruction. -/
def updateInstruction (ref : InstructionRef) (change : Instruction → Instruction) : Edit Unit := do
  let _ ← ask (·.instruction ref)
  modify fun program => { program with instructions := program.instructions.modify ref change }

/-- Change a label. -/
def updateLabel (ref : LabelRef) (change : Label → Label) : Edit Unit := do
  let _ ← ask (·.label ref)
  modify fun program => { program with labels := program.labels.modify ref change }

/-- Change a function. -/
def updateFunction (ref : FunctionRef) (change : Function → Function) : Edit Unit := do
  let _ ← ask (·.function ref)
  modify fun program => { program with functions := program.functions.modify ref change }

/-- Change a global. -/
def updateGlobal (ref : GlobalRef) (change : Global → Global) : Edit Unit := do
  let _ ← ask (·.global ref)
  modify fun program => { program with globals := program.globals.modify ref change }

end Edit

end ChainIR
