import ChainIR.Arena
import ChainIR.Binary64.Basic
import ChainIR.NameTable

/-! # Programs

A program is a set of arenas whose entries refer to each other: interned types, values,
instructions, labels, functions and globals, with the tables that find types, functions and
globals by name. The instructions of a label form a chain, linked in both directions.

Looking a reference up fails with `Fault.dangling` when its arena has no such entry. -/

namespace ChainIR

/-! ## Entries -/

/-- The sorts of entries of a program. -/
inductive Entity
  | type | value | instruction | label | function | global
  deriving DecidableEq

/-- A reference to a type. -/
abbrev TypeRef := Ref Entity.type
/-- A reference to a value. -/
abbrev ValueRef := Ref Entity.value
/-- A reference to an instruction. -/
abbrev InstructionRef := Ref Entity.instruction
/-- A reference to a label. -/
abbrev LabelRef := Ref Entity.label
/-- A reference to a function. -/
abbrev FunctionRef := Ref Entity.function
/-- A reference to a global. -/
abbrev GlobalRef := Ref Entity.global

/-- What a function takes and returns. -/
structure Signature where
  /-- The type of the result. -/
  result : TypeRef
  /-- The types of the fixed parameters. -/
  params : List TypeRef
  /-- Whether further arguments may follow the fixed ones. -/
  variadic : Bool
  deriving DecidableEq

/-- The ways to build a type. -/
inductive TypeShape
  /-- The type of functions that return nothing. -/
  | void
  /-- Double precision numbers. -/
  | num
  /-- Characters. -/
  | chr
  /-- Strings. -/
  | str
  /-- Arrays of `size` elements. -/
  | array (element : TypeRef) (size : UInt64)
  /-- Functions. -/
  | function (signature : Signature)
  deriving DecidableEq

/-- An interned type with its canonical name. -/
structure TypeEntry where
  /-- The canonical name. -/
  name : String
  /-- The way the type is built. -/
  shape : TypeShape

/-- What a literal stands for. -/
inductive Literal
  | num (value : Binary64)
  | str (text : String)
  deriving DecidableEq

/-- A literal with its type. -/
structure Constant where
  /-- The type of the literal. -/
  type : TypeRef
  /-- What the literal stands for. -/
  literal : Literal
  deriving DecidableEq

/-- The kinds of operands. -/
inductive Value
  /-- A register, known by its name alone. -/
  | register (name : String) (type : TypeRef)
  /-- A global, known by its name alone. -/
  | globalPointer (name : String) (type : TypeRef)
  /-- A literal. -/
  | constant (constant : Constant)
  /-- A global itself. -/
  | global (global : GlobalRef)
  /-- The result of an instruction. -/
  | result (instruction : InstructionRef)
  deriving DecidableEq

/-- The kinds of instructions; jump targets are label names. -/
inductive Operation
  /-- Call a function with arguments. -/
  | call (callee : FunctionRef) (arguments : List ValueRef)
  /-- Leave the function, with a value or without. -/
  | ret (value : Option ValueRef)
  /-- Bind a value to a register name. -/
  | set (name : String) (value : ValueRef)
  /-- Reserve storage of a type. -/
  | alloc (type : TypeRef)
  /-- Store a value through a pointer. -/
  | store (pointer value : ValueRef)
  /-- Go on at a label. -/
  | jump (target : String)
  /-- Go on at one of two labels. -/
  | branch (condition : ValueRef) (whenTrue whenFalse : String)
  /-- Load through a pointer. -/
  | load (pointer : ValueRef)
  deriving DecidableEq

/-- An instruction with its place in a chain. -/
structure Instruction where
  /-- The reference of the instruction itself. -/
  self : InstructionRef
  /-- What the instruction does. -/
  operation : Operation
  /-- The value that denotes the result, once it has been asked for. -/
  result : Option ValueRef := none
  /-- The instruction behind it in its chain. -/
  next : Option InstructionRef := none
  /-- The instruction in front of it in its chain. -/
  previous : Option InstructionRef := none
  /-- The label whose chain holds it, `none` while it is in no chain. -/
  label : Option LabelRef := none

/-- A named chain of instructions in a function. -/
structure Label where
  /-- The reference of the label itself. -/
  self : LabelRef
  /-- The name, empty for a chain that starts right behind the header. -/
  name : String
  /-- The function that the label belongs to. -/
  function : FunctionRef
  /-- The first instruction. -/
  head : Option InstructionRef := none
  /-- The last instruction. -/
  tail : Option InstructionRef := none

/-- A function, which is defined once it has an entry and declared until then. -/
structure Function where
  /-- The reference of the function itself. -/
  self : FunctionRef
  /-- The name, shared by the overloads of the function. -/
  name : String
  /-- The function type. -/
  type : TypeRef
  /-- The parameter names. -/
  params : List String := []
  /-- The first instruction ever appended. -/
  entry : Option InstructionRef := none
  /-- The labels in order of creation. -/
  labels : List LabelRef := []
  /-- The labels by name. -/
  labelNames : NameTable LabelRef := {}

/-- A named constant. -/
structure Global where
  /-- The reference of the global itself. -/
  self : GlobalRef
  /-- The name. -/
  name : String
  /-- The constant. -/
  initial : Constant
  /-- The value that denotes the global itself, once it has been asked for. -/
  result : Option ValueRef := none

/-! ## Programs and their faults -/

/-- A program with its symbol tables. -/
structure Program where
  /-- The types in order of creation, no two of one name. -/
  types : Arena Entity.type TypeEntry := {}
  /-- The values in order of creation. -/
  values : Arena Entity.value Value := {}
  /-- The instructions in order of creation. -/
  instructions : Arena Entity.instruction Instruction := {}
  /-- The labels in order of creation. -/
  labels : Arena Entity.label Label := {}
  /-- The functions in order of declaration. -/
  functions : Arena Entity.function Function := {}
  /-- The globals in order of definition. -/
  globals : Arena Entity.global Global := {}
  /-- The types by canonical name. -/
  typeNames : NameTable TypeRef := {}
  /-- The functions of each name, in order of declaration. -/
  overloads : NameTable (List FunctionRef) := {}
  /-- The globals by name. -/
  globalNames : NameTable GlobalRef := {}

/-- Uses of a program that make no sense. -/
inductive Fault
  /-- A reference that has no entry. -/
  | dangling
  /-- An instruction that already is in a chain is linked again. -/
  | alreadyLinked
  /-- An instruction is to be linked behind one that is in no chain. -/
  | notLinked
  /-- A function is to be declared with a type that is not a function type. -/
  | notFunctionType (name : String)
  /-- A function is to be declared twice with one type. -/
  | duplicateFunction (name type : String)
  /-- A global is to be defined twice. -/
  | duplicateGlobal (name : String)
  /-- An instruction is its own operand, directly or through others. -/
  | cyclicOperands
  deriving DecidableEq

namespace Fault

/-- What a fault says. -/
def message : Fault → String
  | dangling => "dangling arena handle"
  | alreadyLinked => "node is already linked"
  | notLinked => "insertion point is not linked"
  | notFunctionType name => "type `" ++ name ++ "` is not a function type"
  | duplicateFunction name type =>
    "function `" ++ name ++ "` of type `" ++ type ++ "` is already declared"
  | duplicateGlobal name => "global `" ++ name ++ "` is already defined"
  | cyclicOperands => "cyclic operands"

end Fault

namespace Program

/-! ## Looking entries up -/

/-- An entry that has to be there. -/
def found {α : Type} : Option α → Except Fault α
  | some entry => .ok entry
  | none => .error .dangling

/-- The type behind a reference. -/
def type (program : Program) (ref : TypeRef) : Except Fault TypeEntry :=
  found (program.types.get? ref)

/-- The value behind a reference. -/
def value (program : Program) (ref : ValueRef) : Except Fault Value :=
  found (program.values.get? ref)

/-- The instruction behind a reference. -/
def instruction (program : Program) (ref : InstructionRef) : Except Fault Instruction :=
  found (program.instructions.get? ref)

/-- The label behind a reference. -/
def label (program : Program) (ref : LabelRef) : Except Fault Label :=
  found (program.labels.get? ref)

/-- The function behind a reference. -/
def function (program : Program) (ref : FunctionRef) : Except Fault Function :=
  found (program.functions.get? ref)

/-- The global behind a reference. -/
def global (program : Program) (ref : GlobalRef) : Except Fault Global :=
  found (program.globals.get? ref)

/-- The functions of a name, in order of declaration. -/
def overloadsOf (program : Program) (name : String) : List FunctionRef :=
  (program.overloads.find? name).getD []

/-- The global of a name. -/
def globalNamed? (program : Program) (name : String) : Option GlobalRef :=
  program.globalNames.find? name

/-- The references of all functions, in order of declaration, as stored in their entries. -/
def functionRefs (program : Program) : List FunctionRef :=
  program.functions.entries.toList.map Function.self

/-- The references of all globals, in order of definition, as stored in their entries. -/
def globalRefs (program : Program) : List GlobalRef :=
  program.globals.entries.toList.map Global.self

end Program

end ChainIR
