import Mathlib
import ChainIR.Program.Text
import ChainIR.Program.Builtin

/-! # Outlines

An outline says what a program holds without a reference into its arenas: the globals, and for
each function its prototype, its parameter names and its blocks. Types are given by their
canonical names. What stands in the blocks is a parameter of the outline: the references of
instructions, statements whose callees are known (`Statement Callee`), or statements as they are
written, with nothing but the name of a callee (`Statement String`).

* `Routine.append`: what appending an instruction does to a function.
* `resolveIn`: the overload that a call means, among the prototypes declared so far.
* `Outline.lines`: the lines of a program, word by word. -/

namespace ChainIR

universe u v w

/-- The name of a function and what its type says, types given by their names. -/
structure Prototype where
  /-- The name. -/
  name : String
  /-- The type of the result. -/
  result : String
  /-- The types of the fixed parameters. -/
  params : List String
  /-- Whether further arguments may follow the fixed ones. -/
  variadic : Bool
  deriving DecidableEq

namespace Prototype

/-- The canonical name of the function type. -/
def type (prototype : Prototype) : String :=
  TypeName.function prototype.result prototype.params prototype.variadic

/-- Whether a call of a name with exactly these arguments may mean the function. -/
def takesExactly (name : String) (arguments : List String) (prototype : Prototype) : Bool :=
  prototype.name == name && (!prototype.variadic && prototype.params == arguments)

/-- Whether a call of a name may mean the function as a variadic one. -/
def takesVariadically (name : String) (arguments : List String) (prototype : Prototype) : Bool :=
  prototype.name == name && (prototype.variadic && prototype.params.isPrefixOf arguments)

end Prototype

/-- The function that a call of a name means among functions in order of declaration. -/
def resolveIn (prototypes : List Prototype) (name : String) (arguments : List String) :
    Option FunctionRef :=
  ((prototypes.findIdx? (Prototype.takesExactly name arguments)).or
    (prototypes.findIdx? (Prototype.takesVariadically name arguments))).map Ref.mk

/-! ## Blocks, routines and outlines -/

/-- A label with what stands under it. -/
structure Block (σ : Type u) where
  /-- The name of the label. -/
  name : String
  /-- What stands under it, first to last. -/
  statements : List σ

/-- A function. -/
structure Routine (σ : Type u) where
  /-- The name and the type. -/
  prototype : Prototype
  /-- The parameter names. -/
  params : List String
  /-- The blocks, none if the function is only declared. -/
  blocks : List (Block σ)

/-- What a program holds. -/
structure Outline (σ : Type u) where
  /-- The globals with their names. -/
  globals : List (String × Literal)
  /-- The functions in order of declaration. -/
  routines : List (Routine σ)

namespace Block

variable {σ : Type u} {τ : Type v}

/-- Blocks of one name whose statements are related one by one. -/
def Rel (related : σ → τ → Prop) (left : Block σ) (right : Block τ) : Prop :=
  left.name = right.name ∧ List.Forall₂ related left.statements right.statements

/-- Change every statement. -/
def map (change : σ → τ) (block : Block σ) : Block τ :=
  ⟨block.name, block.statements.map change⟩

/-- Put a statement at the end of a block of the given name. -/
def push (name : String) (statement : σ) (block : Block σ) : Block σ :=
  if block.name = name then ⟨block.name, block.statements ++ [statement]⟩ else block

/-- Adding a statement to a block leaves its name. -/
@[simp] theorem name_push (name : String) (statement : σ) (block : Block σ) :
    (block.push name statement).name = block.name := by
  rw [push]
  split <;> rfl

end Block

namespace Routine

variable {σ : Type u} {τ : Type v}

/-- A function without instructions. -/
def declared (prototype : Prototype) : Routine σ := ⟨prototype, [], []⟩

/-- The names of the labels. -/
def labels (routine : Routine σ) : List String := routine.blocks.map Block.name

/-- Functions of one header whose statements are related one by one. -/
structure Rel (related : σ → τ → Prop) (left : Routine σ) (right : Routine τ) : Prop where
  /-- The name and the type. -/
  prototype : left.prototype = right.prototype
  /-- The parameter names. -/
  params : left.params = right.params
  /-- The blocks. -/
  blocks : List.Forall₂ (Block.Rel related) left.blocks right.blocks

/-- Change every statement. -/
def map (change : σ → τ) (routine : Routine σ) : Routine τ :=
  ⟨routine.prototype, routine.params, routine.blocks.map (Block.map change)⟩

/-- The function with a label of the given name. -/
def withLabel (name : String) (routine : Routine σ) : Routine σ :=
  if name ∈ routine.labels then routine
  else { routine with blocks := routine.blocks ++ [⟨name, []⟩] }

/-- Put a statement at the end of the label of the given name. -/
def push (name : String) (statement : σ) (routine : Routine σ) : Routine σ :=
  { routine with blocks := routine.blocks.map (Block.push name statement) }

/-- Put a statement at the end of the label of the given name, a new one if there is none. -/
def append (name : String) (statement : σ) (routine : Routine σ) : Routine σ :=
  (routine.withLabel name).push name statement

/-- Give the parameters their names. -/
def withParams (params : List String) (routine : Routine σ) : Routine σ := { routine with params }

end Routine

namespace Outline

variable {σ : Type u} {τ : Type v}

/-- The prototypes in order of declaration. -/
def prototypes (outline : Outline σ) : List Prototype :=
  outline.routines.map Routine.prototype

/-- Outlines of one shape whose statements are related one by one. -/
structure Rel (related : σ → τ → Prop) (left : Outline σ) (right : Outline τ) : Prop where
  /-- The globals. -/
  globals : left.globals = right.globals
  /-- The functions. -/
  routines : List.Forall₂ (Routine.Rel related) left.routines right.routines

/-- Change every statement. -/
def map (change : σ → τ) (outline : Outline σ) : Outline τ :=
  ⟨outline.globals, outline.routines.map (Routine.map change)⟩

/-- Change one function. -/
def modify (outline : Outline σ) (function : FunctionRef) (change : Routine σ → Routine σ) :
    Outline σ :=
  { outline with routines := outline.routines.modify function.index change }

/-- Declare a function. -/
def declare (outline : Outline σ) (prototype : Prototype) : Outline σ :=
  { outline with routines := outline.routines ++ [.declared prototype] }

/-- Define a global. -/
def define (outline : Outline σ) (name : String) (literal : Literal) : Outline σ :=
  { outline with globals := outline.globals ++ [(name, literal)] }

end Outline

/-! ## Statements -/

namespace Literal

/-- The name of the type of a literal. -/
def typeName : Literal → String
  | num _ => "num"
  | str _ => "str"

end Literal

/-- An operand; a global is known by its name, whichever value stands for it. -/
inductive Operand
  | register (name type : String)
  | global (name type : String)
  | constant (literal : Literal)
  deriving DecidableEq

namespace Operand

/-- The type of an operand. -/
def type : Operand → String
  | register _ type => type
  | global _ type => type
  | constant literal => literal.typeName

end Operand

/-- The function that a call means, with its name. -/
structure Callee where
  /-- The name. -/
  name : String
  /-- The function. -/
  function : FunctionRef
  deriving DecidableEq

/-- An instruction with a result. -/
inductive Producer (κ : Type u)
  | call (callee : κ) (arguments : List Operand)
  | alloc (type : String)
  | load (pointer : Operand)
  deriving DecidableEq

/-- An instruction; jump targets are label names. -/
inductive Statement (κ : Type u)
  | produce (producer : Producer κ)
  | assign (name : String) (producer : Producer κ)
  | set (name : String) (operand : Operand)
  | ret (operand : Option Operand)
  | store (pointer operand : Operand)
  | jump (target : String)
  | branch (condition : Operand) (whenTrue whenFalse : String)
  deriving DecidableEq

namespace Producer

variable {κ : Type u} {μ : Type v}

/-- The call, if it is one. -/
def call? : Producer κ → Option (κ × List Operand)
  | call callee arguments => some (callee, arguments)
  | _ => none

/-- Change the callee. -/
def map (change : κ → μ) : Producer κ → Producer μ
  | call callee arguments => call (change callee) arguments
  | alloc type => alloc type
  | load pointer => load pointer

/-- Find the callee of a call by its name and the types of its arguments. -/
def resolve (prototypes : List Prototype) : Producer String → Option (Producer Callee)
  | call name arguments =>
    (resolveIn prototypes name (arguments.map Operand.type)).map fun function =>
      call ⟨name, function⟩ arguments
  | alloc type => some (alloc type)
  | load pointer => some (load pointer)

end Producer

namespace Statement

variable {κ : Type u} {μ : Type v}

/-- The call of a statement, by itself or under a register. -/
def call? : Statement κ → Option (κ × List Operand)
  | produce producer => producer.call?
  | assign _ producer => producer.call?
  | _ => none

/-- Change the callee. -/
def map (change : κ → μ) : Statement κ → Statement μ
  | produce producer => produce (producer.map change)
  | assign name producer => assign name (producer.map change)
  | set name operand => set name operand
  | ret operand => ret operand
  | store pointer operand => store pointer operand
  | jump target => jump target
  | branch condition whenTrue whenFalse => branch condition whenTrue whenFalse

/-- A statement as it is written: of a callee only the name is left. -/
def written : Statement Callee → Statement String := map Callee.name

/-- Find the callee of the call of a statement. -/
def resolve (prototypes : List Prototype) : Statement String → Option (Statement Callee)
  | produce producer => (producer.resolve prototypes).map produce
  | assign name producer => (producer.resolve prototypes).map (assign name)
  | set name operand => some (set name operand)
  | ret operand => some (ret operand)
  | store pointer operand => some (store pointer operand)
  | jump target => some (jump target)
  | branch condition whenTrue whenFalse => some (branch condition whenTrue whenFalse)

end Statement

/-! ## Lines -/

/-- A word of a line: by itself, or a text that stands in quotes. -/
inductive Word
  | bare (text : String)
  | quoted (text : String)
  deriving DecidableEq

namespace Word

/-- A word as it is written. -/
def text : Word → String
  | bare text => text
  | quoted text => "\"" ++ Escape.encodeString text ++ "\""

end Word

/-- A line, with a tab in front of it or not. -/
structure TextLine where
  /-- Whether the line is indented. -/
  indented : Bool
  /-- The words. -/
  words : List Word

namespace TextLine

/-- A line as it is written. -/
def text (line : TextLine) : String :=
  (if line.indented then "\t" else "") ++ spaced (line.words.map Word.text)

end TextLine

namespace Literal

/-- The word of a literal. -/
def word : Literal → Word
  | num value => .bare (String.ofList value.text)
  | str text => .quoted text

/-- The words of a literal as a constant. -/
def words (literal : Literal) : List Word :=
  [.bare "const", .bare literal.typeName, literal.word]

end Literal

namespace Operand

/-- The words of an operand. -/
def words : Operand → List Word
  | register name type => [.bare ("%" ++ name), .bare type]
  | global name _ => [.bare ("$" ++ name)]
  | constant literal => literal.words

end Operand

namespace Producer

/-- The words of an instruction with a result. -/
def words : Producer String → List Word
  | call callee arguments => [.bare "call", .bare callee] ++ (arguments.map Operand.words).flatten
  | alloc type => [.bare "alloc", .bare type]
  | load pointer => .bare "load" :: pointer.words

end Producer

namespace Statement

/-- The words of an instruction. -/
def words : Statement String → List Word
  | produce producer => producer.words
  | assign name producer => .bare ("%" ++ name) :: producer.words
  | set name operand => .bare ("%" ++ name) :: operand.words
  | ret none => [.bare "ret"]
  | ret (some operand) => .bare "ret" :: operand.words
  | store pointer operand => .bare "store" :: (pointer.words ++ operand.words)
  | jump target => [.bare "jmp", .bare target]
  | branch condition whenTrue whenFalse =>
    .bare "cjmp" :: (condition.words ++ [.bare whenTrue, .bare whenFalse])

end Statement

namespace Block

/-- The lines of a block, the first of a function or a later one. -/
def lines (isFirst : Bool) (block : Block (Statement String)) : List TextLine :=
  (if isFirst && block.name.isEmpty then [] else [⟨false, [.bare ("@" ++ block.name)]⟩]) ++
    block.statements.map fun statement => ⟨true, statement.words⟩

end Block

namespace Routine

variable {σ : Type u}

/-- Parameter names for as many parameters as there are types; one that is missing is `v` and the
number of the parameter. -/
def completed (index : Nat) : List String → List String → List String
  | [], _ => []
  | _ :: types, names =>
    names.head?.getD ("v" ++ toString index) :: completed (index + 1) types names.tail

/-- The function with a name for every parameter. -/
def named (routine : Routine σ) : Routine σ :=
  { routine with params := completed 0 routine.prototype.params routine.params }

/-- The words of parameters, each a type and a name. -/
def paramWords : List String → List String → List Word
  | type :: types, name :: names => .bare type :: .bare name :: paramWords types names
  | _, _ => []

/-- The words of the header. -/
def headerWords (routine : Routine σ) : List Word :=
  [.bare (if routine.blocks.isEmpty then "dec" else "def"), .bare routine.prototype.result,
    .bare routine.prototype.name] ++
    paramWords routine.prototype.params routine.named.params ++
    (if routine.prototype.variadic then [.bare "?"] else [])

/-- The lines of blocks, the first of a function or later ones. -/
def bodyLines (isFirst : Bool) : List (Block (Statement String)) → List TextLine
  | [] => []
  | block :: blocks => block.lines isFirst ++ bodyLines false blocks

/-- The lines of a function. -/
def lines (routine : Routine (Statement String)) : List TextLine :=
  ⟨false, routine.headerWords⟩ ::
    if routine.blocks.isEmpty then []
    else bodyLines true routine.blocks ++ [⟨false, [.bare "enddef"]⟩]

end Routine

namespace Outline

/-- The line of a global. -/
def globalLine (name : String) (literal : Literal) : TextLine :=
  ⟨false, .bare "global" :: .bare ("$" ++ name) :: literal.words⟩

/-- The lines of a program. -/
def lines (outline : Outline (Statement String)) : List TextLine :=
  outline.globals.map (fun binding => globalLine binding.1 binding.2) ++
    (outline.routines.map Routine.lines).flatten

/-- The text of a program. -/
def text (outline : Outline (Statement String)) : String :=
  String.join (outline.lines.map fun line => line.text ++ "\n")

end Outline

end ChainIR
