import ChainIR.Program.Constant

/-! # Values and instructions

Values are the operands of instructions, and the result of an instruction is a value again. The
types and the words of both therefore call each other. Each nested instruction uses up one step
of a bound; a program has no longer nesting than it has instructions unless an instruction is its
own operand. -/

namespace ChainIR

namespace Program

/-- The bound on the nesting of operands. -/
def operandDepth (program : Program) : Nat := program.instructions.size + 1

/-- The type of a value, given the types of instruction results. -/
def valueTypeWith (program : Program)
    (resultType : InstructionRef → Except Fault (Option TypeRef)) (ref : ValueRef) :
    Except Fault (Option TypeRef) := do
  match ← program.value ref with
  | .register _ type => return some type
  | .globalPointer _ type => return some type
  | .constant constant => return some constant.type
  | .global ref => return some (← program.global ref).initial.type
  | .result instruction => resultType instruction

/-- The type of the result of an instruction, down to a nesting of operands. -/
def resultTypeWithin (program : Program) : Nat → InstructionRef → Except Fault (Option TypeRef)
  | 0, _ => .error .cyclicOperands
  | depth + 1, ref => do
    let operandType := program.valueTypeWith (program.resultTypeWithin depth)
    match (← program.instruction ref).operation with
    | .call callee _ =>
      return (← program.signature? (← program.function callee).type).map (·.result)
    | .ret none => return none
    | .ret (some value) => operandType value
    | .set _ value => operandType value
    | .alloc type => return some type
    | .load pointer => operandType pointer
    | .store _ _ => return none
    | .jump _ => return none
    | .branch _ _ _ => return none

/-- The type of the result of an instruction. A call has the result type of its callee, `ret`,
`set` and `load` have the type of their operand, `alloc` has the allocated type, and the others
have none. -/
def resultType (program : Program) (ref : InstructionRef) : Except Fault (Option TypeRef) :=
  program.resultTypeWithin program.operandDepth ref

/-- The type of a value, `none` for the result of an instruction without one. -/
def valueType (program : Program) (ref : ValueRef) : Except Fault (Option TypeRef) :=
  program.valueTypeWith program.resultType ref

/-- The instruction that a value is the result of, `none` for any other value. -/
def valueInstruction? (program : Program) (ref : ValueRef) :
    Except Fault (Option InstructionRef) := do
  match ← program.value ref with
  | .result instruction => return some instruction
  | .register _ _ | .globalPointer _ _ | .constant _ | .global _ => return none

/-- The words of a value, given the words of instructions. -/
def valueWordsWith (program : Program)
    (instructionWords : InstructionRef → Except Fault (List String)) (ref : ValueRef) :
    Except Fault (List String) := do
  match ← program.value ref with
  | .register name type => return ["%" ++ name, ← program.typeName type]
  | .globalPointer name _ => return ["$" ++ name]
  | .constant constant => program.constantWords constant
  | .global ref => return ["$" ++ (← program.global ref).name]
  | .result instruction => instructionWords instruction

/-- The words of an instruction, down to a nesting of operands. -/
def instructionWordsWithin (program : Program) :
    Nat → InstructionRef → Except Fault (List String)
  | 0, _ => .error .cyclicOperands
  | depth + 1, ref => do
    let operandWords := program.valueWordsWith (program.instructionWordsWithin depth)
    match (← program.instruction ref).operation with
    | .call callee arguments =>
      let name := (← program.function callee).name
      return ["call", name] ++ (← arguments.mapM operandWords).flatten
    | .ret none => return ["ret"]
    | .ret (some value) => return "ret" :: (← operandWords value)
    | .set name value => return ("%" ++ name) :: (← operandWords value)
    | .alloc type => return ["alloc", ← program.typeName type]
    | .store pointer value =>
      let pointerWords ← operandWords pointer
      return "store" :: (pointerWords ++ (← operandWords value))
    | .jump target => return ["jmp", target]
    | .branch condition whenTrue whenFalse =>
      return "cjmp" :: ((← operandWords condition) ++ [whenTrue, whenFalse])
    | .load pointer => return "load" :: (← operandWords pointer)

/-- The words of an instruction in a source. -/
def instructionWords (program : Program) (ref : InstructionRef) : Except Fault (List String) :=
  program.instructionWordsWithin program.operandDepth ref

/-- The words of a value in a source. -/
def valueWords (program : Program) (ref : ValueRef) : Except Fault (List String) :=
  program.valueWordsWith program.instructionWords ref

end Program

namespace Edit

/-- The value of an instruction; it is created when it is first asked for. -/
def resultValue (ref : InstructionRef) : Edit ValueRef := do
  match (← ask (·.instruction ref)).result with
  | some value => return value
  | none =>
    let value ← addValue (.result ref)
    updateInstruction ref fun instruction => { instruction with result := some value }
    return value

/-- The value of a global itself; it is created when it is first asked for. -/
def globalValue (ref : GlobalRef) : Edit ValueRef := do
  match (← ask (·.global ref)).result with
  | some value => return value
  | none =>
    let value ← addValue (.global ref)
    updateGlobal ref fun global => { global with result := some value }
    return value

end Edit

end ChainIR
