import ChainIR.Program.Function
import ChainIR.Program.Operand

/-! # The text of programs

A program is written as the lines of its globals followed by the lines of its functions. Words on
a line are separated by one space. -/

namespace ChainIR

/-- Words with one space between them. -/
def spaced (words : List String) : String := " ".intercalate words

namespace Program

/-- The text of a constant. -/
def constantText (program : Program) (constant : Constant) : Except Fault String :=
  return spaced (← program.constantWords constant)

/-- The text of a value. -/
def valueText (program : Program) (ref : ValueRef) : Except Fault String :=
  return spaced (← program.valueWords ref)

/-- The text of an instruction. -/
def instructionText (program : Program) (ref : InstructionRef) : Except Fault String :=
  return spaced (← program.instructionWords ref)

/-- The words of the parameters from number `index` on; a parameter without name is called `v`
and its number. -/
def paramWords (program : Program) (index : Nat) :
    List TypeRef → List String → Except Fault (List String)
  | [], _ => .ok []
  | type :: types, names => do
    let name := names.head?.getD ("v" ++ toString index)
    let typeName ← program.typeName type
    return typeName :: name :: (← program.paramWords (index + 1) types names.tail)

/-- The words of the header of a function. -/
def headerWords (program : Program) (function : Function) : Except Fault (List String) := do
  let keyword := if function.entry.isSome then "def" else "dec"
  match ← program.signature? function.type with
  | none => return [keyword, "void", function.name]
  | some signature =>
    let result ← program.typeName signature.result
    let params ← program.paramWords 0 signature.params function.params
    return [keyword, result, function.name] ++ params ++ (if signature.variadic then ["?"] else [])

/-- The line that opens a label; the first label needs none if it has no name. -/
def labelLines (isFirst : Bool) (name : String) : List String :=
  if isFirst && name.isEmpty then [] else ["@" ++ name]

/-- The lines of a label and its instructions. -/
def blockLines (program : Program) (isFirst : Bool) (ref : LabelRef) :
    Except Fault (List String) := do
  let label ← program.label ref
  let instructions ← program.chain ref
  let lines ← instructions.mapM fun instruction =>
    return "\t" ++ (← program.instructionText instruction)
  return labelLines isFirst label.name ++ lines

/-- The lines of labels, the first of a function or later ones. -/
def bodyLines (program : Program) (isFirst : Bool) :
    List LabelRef → Except Fault (List String)
  | [] => .ok []
  | label :: labels => do
    let block ← program.blockLines isFirst label
    return block ++ (← program.bodyLines false labels)

/-- The lines of a function. -/
def functionLines (program : Program) (ref : FunctionRef) : Except Fault (List String) := do
  let function ← program.function ref
  let header := spaced (← program.headerWords function)
  if function.entry.isNone then return [header]
  let body ← program.bodyLines true function.labels
  return header :: body ++ ["enddef"]

/-- The text of a function. -/
def functionText (program : Program) (ref : FunctionRef) : Except Fault String :=
  return "\n".intercalate (← program.functionLines ref)

/-- The line of a global. -/
def globalText (program : Program) (ref : GlobalRef) : Except Fault String := do
  let global ← program.global ref
  return spaced ("global" :: ("$" ++ global.name) :: (← program.constantWords global.initial))

/-- The lines of a program. -/
def lines (program : Program) : Except Fault (List String) := do
  let globals ← program.globalRefs.mapM program.globalText
  let functions ← program.functionRefs.mapM program.functionLines
  return globals ++ functions.flatten

/-- The text of a program. -/
def text (program : Program) : Except Fault String :=
  return String.join ((← program.lines).map (· ++ "\n"))

end Program

end ChainIR
