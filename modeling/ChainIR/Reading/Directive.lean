import ChainIR.Program.Text
import ChainIR.Reading.Instruction
import ChainIR.Reading.Record

/-! # Reading the lines of a source

Outside of functions a line declares a function, opens the definition of one or defines a global;
any other line is skipped with a warning. Inside a function a line is an instruction, opens a
label or ends the function. Every line read leaves at most one log record. -/

namespace ChainIR

/-- What stays from one line to the next besides the program. -/
structure Position where
  /-- Where instructions are appended. -/
  cursor : Cursor := {}
  /-- The name of the function that is being defined, `none` outside of functions. -/
  openFunction : Option String := none

/-- What a line leads to: the position behind it, and the record that it leaves. -/
abbrev LineOutcome := Position × Option LogRecord

namespace LineReader

/-- Read the parameters of a header, at most `count` of them: pairs of a type and a name, and a
closing `?` if there may be further arguments. -/
def paramsWithin : Nat → LineReader (List (TypeRef × String) × Bool)
  | 0 => return ([], false)
  | count + 1 => do
    if ← atEnd then return ([], false)
    if ← atWord "?" then
      let _ ← take "`?`"
      finish
      return ([], true)
    let ref ← type
    let name := (← take "parameter name").value
    let (params, variadic) ← paramsWithin count
    return ((ref, name) :: params, variadic)

/-- Read the parameters of a header. -/
def params : LineReader (List (TypeRef × String) × Bool) := do
  paramsWithin (← get).tokens.length

/-- What the header of a function says. -/
structure Header where
  /-- The name of the function. -/
  name : String
  /-- The function type. -/
  type : TypeRef
  /-- The names of the parameters. -/
  params : List String
  /-- The function of this name and type, which is declared if it was not. -/
  function : FunctionRef

/-- The header of a function with the parts that have been read. -/
def headerOf (result : TypeRef) (name : String) (params : List (TypeRef × String))
    (variadic : Bool) : LineReader Header := do
  let type ← edit (Edit.functionType ⟨result, params.map Prod.fst, variadic⟩)
  let function ← match ← ask fun program => program.functionOfType? name type with
    | some function => pure function
    | none => edit (Edit.declareFunction name type)
  return ⟨name, type, params.map Prod.snd, function⟩

/-- Read a header behind its keyword: the result type, the name, and the parameters. -/
def header : LineReader Header := do
  let _ ← take "`def` or `dec`"
  let result ← type
  let name := (← take "function name").value
  let (params, variadic) ← params
  headerOf result name params variadic

/-- Declare the function of a header. Parameter names count only for a function that has none. -/
def declare (position : Position) (header : Header) : LineReader LineOutcome := do
  let typeName ← ask fun program => program.typeName header.type
  let entry ← ask fun program => program.function header.function
  if entry.params.isEmpty then edit (Edit.setParams header.function header.params)
  return (position,
    some ⟨.debug, "declared `" ++ header.name ++ "` as " ++ typeName⟩)

/-- Open the definition of the function of a header. -/
def define (header : Header) : LineReader LineOutcome := do
  let entry ← ask fun program => program.function header.function
  if entry.entry.isSome then reject (.redefinition header.name (← get).line)
  let typeName ← ask fun program => program.typeName header.type
  edit (Edit.setParams header.function header.params)
  return (⟨⟨some header.function, ""⟩, some header.name⟩,
    some ⟨.debug, "defining `" ++ header.name ++ "` as " ++ typeName⟩)

/-- Bind a name to a global. -/
def bindGlobal (position : Position) (name : String) (initial : Constant) :
    LineReader LineOutcome := do
  let text ← ask fun program => program.constantText initial
  let _ ← edit (Edit.defineGlobal name initial)
  return (position, some ⟨.debug, "global `" ++ name ++ "` bound to " ++ text⟩)

/-- Read a line that defines a global. -/
def globalLine (position : Position) : LineReader LineOutcome := do
  let _ ← takeWord "global"
  let name := (← takeKind .global).value
  if ((← get).program.globalNamed? name).isSome then
    reject (.duplicateGlobal name (← get).line)
  let initial ← constant
  finish
  bindGlobal position name initial

/-- Skip a line. -/
def skipped (position : Position) : LineReader LineOutcome := do
  let state ← get
  let words := state.tokens.map Token.text
  return (position,
    some ⟨.warn, "skipping line " ++ toString state.line ++ ": " ++ " ".intercalate words⟩)

/-- Read a line outside of functions. -/
def topLine (position : Position) : LineReader LineOutcome := do
  if ← atWord "def" then define (← header)
  else if ← atWord "dec" then declare position (← header)
  else if ← atWord "global" then globalLine position
  else if ← atWord "enddef" then reject (.strayEnd (← get).line)
  else skipped position

/-- Append the instruction of a line at the cursor. -/
def append (position : Position) (line : Nat) (instruction : InstructionRef) :
    LineReader LineOutcome := do
  let text ← ask fun program => program.instructionText instruction
  match ← edit (position.cursor.append instruction) with
  | .ok _ => return (position, some ⟨.trace, "line " ++ toString line ++ ": " ++ text⟩)
  | .error cause => reject (.build cause)

/-- Read a line inside a function. -/
def bodyLine (position : Position) : LineReader LineOutcome := do
  let line := (← get).line
  if ← atWord "enddef" then
    let _ ← take "`enddef`"
    finish
    return ({ position with openFunction := none }, none)
  else if (← atKind .block) && (← get).tokens.length == 1 then
    let label := (← take "label").value
    return ({ position with cursor := { position.cursor with label } },
      some ⟨.trace, "line " ++ toString line ++ ": label `" ++ label ++ "`"⟩)
  else append position line (← instructionLine)

/-- Read a line with tokens. -/
def sourceLine (position : Position) : LineReader LineOutcome :=
  if position.openFunction.isSome then bodyLine position else topLine position

end LineReader

end ChainIR
