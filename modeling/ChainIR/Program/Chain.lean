import ChainIR.Program.Edit

/-! # Chains of instructions

The instructions of a label form a chain that is linked in both directions: every instruction
knows its neighbours and its label, and the label knows both ends. An instruction is in one chain
at most. `Walk` passes through a chain from both ends at once. -/

namespace ChainIR

namespace Edit

/-- Link a free instruction into a chain, right behind `point`. -/
def insertAfter (point instruction : InstructionRef) : Edit Unit := do
  let place ← ask (·.instruction point)
  let some label := place.label | throw .notLinked
  if (← ask (·.instruction instruction)).label.isSome then throw .alreadyLinked
  match place.next with
  | some after => updateInstruction after fun entry => { entry with previous := some instruction }
  | none => updateLabel label fun entry => { entry with tail := some instruction }
  updateInstruction instruction fun entry =>
    { entry with next := place.next, previous := some point, label := some label }
  updateInstruction point fun entry => { entry with next := some instruction }

/-- Link a free instruction at the end of the chain of a label. -/
def pushBack (label : LabelRef) (instruction : InstructionRef) : Edit Unit := do
  if (← ask (·.instruction instruction)).label.isSome then throw .alreadyLinked
  match (← ask (·.label label)).tail with
  | some last => insertAfter last instruction
  | none =>
    updateLabel label fun entry =>
      { entry with head := some instruction, tail := some instruction }
    updateInstruction instruction fun entry => { entry with label := some label }

end Edit

/-- A walk through a chain from both ends; it is over once the ends have met. -/
structure Walk where
  /-- The next instruction from the front. -/
  front : Option InstructionRef
  /-- The next instruction from the back. -/
  back : Option InstructionRef

namespace Walk

/-- The walk through the chain of a label. -/
def start (label : Label) : Walk := ⟨label.head, label.tail⟩

/-- Take the next instruction from the front. -/
def next (program : Program) (walk : Walk) : Except Fault (Option InstructionRef × Walk) := do
  match walk.front with
  | none => return (none, walk)
  | some here =>
    let entry ← program.instruction here
    if walk.back = some here then return (some here, ⟨none, none⟩)
    else return (some here, { walk with front := entry.next })

/-- Take the next instruction from the back. -/
def nextBack (program : Program) (walk : Walk) : Except Fault (Option InstructionRef × Walk) := do
  match walk.back with
  | none => return (none, walk)
  | some here =>
    let entry ← program.instruction here
    if walk.front = some here then return (some here, ⟨none, none⟩)
    else return (some here, { walk with back := entry.previous })

/-- The instructions that up to `count` steps give, until the walk is over. -/
def collect (step : Walk → Except Fault (Option InstructionRef × Walk)) :
    Nat → Walk → Except Fault (List InstructionRef)
  | 0, _ => .ok []
  | count + 1, walk => do
    match ← step walk with
    | (none, _) => return []
    | (some here, rest) => return here :: (← collect step count rest)

end Walk

namespace Program

/-- The instructions of a label, first to last. A chain is no longer than the program has
instructions. -/
def chain (program : Program) (label : LabelRef) : Except Fault (List InstructionRef) := do
  let walk := Walk.start (← program.label label)
  Walk.collect (Walk.next program) program.instructions.size walk

/-- The instructions of a label, last to first. -/
def chainReversed (program : Program) (label : LabelRef) :
    Except Fault (List InstructionRef) := do
  let walk := Walk.start (← program.label label)
  Walk.collect (Walk.nextBack program) program.instructions.size walk

end Program

end ChainIR
