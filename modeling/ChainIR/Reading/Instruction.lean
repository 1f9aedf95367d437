import ChainIR.Program.Operand
import ChainIR.Program.Function
import ChainIR.Reading.Line

/-! # Reading operands and instructions

The grammar of a line of a function body, with the words of a line separated by spaces:

* line: `%register` followed by a producer or a value, `ret`, `ret` value, `store` value value,
  `jmp` target, `cjmp` value target target, or a producer;
* producer: `call` name value ..., `alloc` type, `load` value;
* value: `%register` type, `$global`, or a constant `const` type literal.

Every operand becomes a value of its own when it is read. -/

namespace ChainIR.LineReader

/-- Read a type. -/
def type : LineReader TypeRef := do
  let token ← take "type"
  match ← edit (Edit.typeByName token.value) with
  | .ok (some ref) => return ref
  | .ok none => reject (.unknownType token)
  | .error cause => reject (.malformedType token cause)

/-- Read a constant. -/
def constant : LineReader Constant := do
  let _ ← takeWord "const"
  let ref ← type
  let token ← take "literal"
  match ← ask fun program => program.constantOfText ref token.value with
  | .ok constant => return constant
  | .error cause => reject (.malformedLiteral token cause)

/-- Read a value. -/
def value : LineReader ValueRef := do
  if ← atKind .register then
    let token ← take "register"
    let ref ← type
    edit (Edit.addValue (.register token.value ref))
  else if ← atKind .global then
    let token ← take "global"
    match (← get).program.globalNamed? token.value with
    | none => reject (.unknownGlobal token)
    | some global =>
      let entry ← ask fun program => program.global global
      edit (Edit.addValue (.globalPointer token.value entry.initial.type))
  else if ← atWord "const" then
    let constant ← constant
    edit (Edit.addValue (.constant constant))
  else unexpected "value"

/-- Read values up to the end of the line, at most `count` of them. -/
def valuesWithin : Nat → LineReader (List ValueRef)
  | 0 => return []
  | count + 1 => do
    if ← atEnd then return []
    let ref ← value
    return ref :: (← valuesWithin count)

/-- Read values up to the end of the line. Every value has at least one token, so there are no
more values than tokens. -/
def values : LineReader (List ValueRef) := do valuesWithin (← get).tokens.length

/-- Read a jump target, with or without its mark. -/
def target : LineReader String := do
  if (← atKind .block) || (← atKind .identifier) || (← atKind .number) then
    return (← take "label").value
  else unexpected "label"

/-- The names of the types of values in an error message. -/
def typeNames (types : List (Option TypeRef)) : LineReader String := do
  let names ← types.mapM fun type =>
    match type with
    | some ref => ask fun program => program.typeName ref
    | none => return "?"
  return ", ".intercalate names

/-- The call of a name with arguments. The callee is the overload that takes arguments of their
types. -/
def callOf (name : String) (arguments : List ValueRef) : LineReader InstructionRef := do
  let types ← arguments.mapM fun ref => ask fun program => program.valueType ref
  let callee ← match types.mapM id with
    | some types => ask fun program => program.resolve? name types
    | none => pure none
  match callee with
  | some function => edit (Edit.addInstruction (.call function arguments))
  | none => reject (.unresolvedCallee name (← typeNames types) (← get).line)

/-- Read the callee and the arguments of a call. -/
def call : LineReader InstructionRef := do
  let _ ← take "`call`"
  let name := (← take "callee name").value
  callOf name (← values)

/-- Whether the next token begins an instruction that has a result. -/
def atProducer : LineReader Bool :=
  return (← atWord "call") || (← atWord "alloc") || (← atWord "load")

/-- Read an instruction that has a result. -/
def producer : LineReader InstructionRef := do
  if ← atWord "call" then call
  else if ← atWord "alloc" then
    let _ ← take "`alloc`"
    edit (Edit.addInstruction (.alloc (← type)))
  else if ← atWord "load" then
    let _ ← take "`load`"
    edit (Edit.addInstruction (.load (← value)))
  else unexpected "instruction"

/-- Read what a register is set to: the result of an instruction, or a value. -/
def assigned : LineReader ValueRef := do
  if ← atProducer then
    let instruction ← producer
    edit (Edit.resultValue instruction)
  else value

/-- Read an instruction that may stand on a line of a body. -/
def instruction : LineReader InstructionRef := do
  if ← atKind .register then
    let name := (← take "register").value
    edit (Edit.addInstruction (.set name (← assigned)))
  else if ← atWord "ret" then
    let _ ← take "`ret`"
    let operand ← if ← atEnd then pure none else some <$> value
    edit (Edit.addInstruction (.ret operand))
  else if ← atWord "store" then
    let _ ← take "`store`"
    let pointer ← value
    edit (Edit.addInstruction (.store pointer (← value)))
  else if ← atWord "jmp" then
    let _ ← take "`jmp`"
    edit (Edit.addInstruction (.jump (← target)))
  else if ← atWord "cjmp" then
    let _ ← take "`cjmp`"
    let condition ← value
    let whenTrue ← target
    edit (Edit.addInstruction (.branch condition whenTrue (← target)))
  else producer

/-- Read a whole line that holds an instruction. -/
def instructionLine : LineReader InstructionRef := do
  let ref ← instruction
  finish
  return ref

end ChainIR.LineReader
