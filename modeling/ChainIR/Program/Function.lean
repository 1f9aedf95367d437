import ChainIR.Program.Chain
import ChainIR.Program.TypeName

/-! # Functions and globals

Functions are overloaded: one name may have several functions, told apart by their types. A call
picks the overload that takes exactly its arguments, or else a variadic one whose fixed
parameters match the first of them. A function gets its labels and its entry by appending
instructions. Globals have one name each. -/

namespace ChainIR

/-- The first element with a property that may fail to be decided. -/
def firstSuch? {α : Type} (holds : α → Except Fault Bool) : List α → Except Fault (Option α)
  | [] => .ok none
  | candidate :: rest => do
    if ← holds candidate then return some candidate else firstSuch? holds rest

namespace Signature

/-- Whether a signature takes exactly the arguments and no others. -/
def takesExactly (signature : Signature) (arguments : List TypeRef) : Bool :=
  !signature.variadic && signature.params == arguments

/-- Whether a signature is variadic and its fixed parameters match the first arguments. -/
def takesVariadically (signature : Signature) (arguments : List TypeRef) : Bool :=
  signature.variadic && signature.params.isPrefixOf arguments

end Signature

namespace Program

/-- The function of a name that has exactly the given type. -/
def functionOfType? (program : Program) (name : String) (type : TypeRef) :
    Except Fault (Option FunctionRef) :=
  firstSuch? (fun ref => return (← program.function ref).type == type) (program.overloadsOf name)

/-- Whether the signature of a function has a property; other types have none. -/
def functionAccepts (program : Program) (property : Signature → Bool) (ref : FunctionRef) :
    Except Fault Bool :=
  return (← program.signature? (← program.function ref).type).any property

/-- The function of a name that a call with arguments of the given types means. -/
def resolve? (program : Program) (name : String) (arguments : List TypeRef) :
    Except Fault (Option FunctionRef) := do
  let overloads := program.overloadsOf name
  match ← firstSuch? (program.functionAccepts (·.takesExactly arguments)) overloads with
  | some ref => return some ref
  | none => firstSuch? (program.functionAccepts (·.takesVariadically arguments)) overloads

/-- The label of a function that has the given name. -/
def labelNamed? (program : Program) (function : FunctionRef) (name : String) :
    Except Fault (Option LabelRef) :=
  return (← program.function function).labelNames.find? name

/-- The instructions under a label of a function, none if there is no such label. -/
def chainNamed (program : Program) (function : FunctionRef) (name : String) :
    Except Fault (List InstructionRef) := do
  match ← program.labelNamed? function name with
  | some label => program.chain label
  | none => return []

end Program

namespace Edit

/-- Declare a function. No function of its name may have the same type. -/
def declareFunction (name : String) (type : TypeRef) : Edit FunctionRef := do
  if (← ask (·.signature? type)).isNone then
    throw (.notFunctionType (← ask (·.typeName type)))
  if (← ask (·.functionOfType? name type)).isSome then
    throw (.duplicateFunction name (← ask (·.typeName type)))
  let program ← get
  let (ref, functions) := program.functions.allocWith fun self => { self, name, type }
  let overloads := program.overloads.insert name (program.overloadsOf name ++ [ref])
  set { program with functions, overloads }
  return ref

/-- Give the parameters of a function their names. -/
def setParams (function : FunctionRef) (params : List String) : Edit Unit :=
  updateFunction function fun entry => { entry with params }

/-- The label of a function that has the given name; it is created if there is none. -/
def labelNamed (function : FunctionRef) (name : String) : Edit LabelRef := do
  match ← ask (·.labelNamed? function name) with
  | some label => return label
  | none =>
    let label ← addLabel name function
    updateFunction function fun entry =>
      { entry with
        labels := entry.labels ++ [label]
        labelNames := entry.labelNames.insert name label }
    return label

/-- Append an instruction to the chain of a label. The first instruction ever appended is the
entry of the function. -/
def append (function : FunctionRef) (label : String) (instruction : InstructionRef) :
    Edit Unit := do
  pushBack (← labelNamed function label) instruction
  updateFunction function fun entry => { entry with entry := entry.entry.or (some instruction) }

/-- Define a global. Its name must be free. -/
def defineGlobal (name : String) (initial : Constant) : Edit GlobalRef := do
  let program ← get
  if (program.globalNamed? name).isSome then throw (.duplicateGlobal name)
  let (ref, globals) := program.globals.allocWith fun self => { self, name, initial }
  set { program with globals, globalNames := program.globalNames.insert name ref }
  return ref

end Edit

end ChainIR
