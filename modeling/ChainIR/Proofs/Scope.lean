import Mathlib
import ChainIR.Program.Cursor
import ChainIR.Program.Operand
import ChainIR.Proofs.Outline.Layout
import ChainIR.Proofs.Step

/-! # The globals beside the rest of a program

The globals of a program and the table that finds them (`Scope`) stand beside everything else. An
edit that spares them does to a program what it does to the same program with other globals
(`Edit.Spares`), and all edits but `defineGlobal` and `globalValue` do. A scope is within another
one if whatever it finds is found there (`Scope.Within`). -/

namespace ChainIR

/-! ## Scopes -/

/-- The globals of a program. -/
structure Scope where
  /-- The globals in order of definition. -/
  globals : Arena Entity.global Global
  /-- The globals by name. -/
  names : NameTable GlobalRef

/-- Whatever one scope finds is found in the other one. -/
structure Scope.Within (narrow wide : Scope) : Prop where
  globals : ∀ ref entry, narrow.globals.get? ref = some entry →
    wide.globals.get? ref = some entry
  names : ∀ name ref, narrow.names.find? name = some ref → wide.names.find? name = some ref

/-- A scope is within itself. -/
@[refl] theorem Scope.Within.refl (scope : Scope) : scope.Within scope :=
  ⟨fun _ _ h => h, fun _ _ h => h⟩

namespace Program

/-- The globals of a program. -/
def scope (program : Program) : Scope := ⟨program.globals, program.globalNames⟩

/-- The program with other globals. -/
def withScope (program : Program) (scope : Scope) : Program :=
  { program with globals := scope.globals, globalNames := scope.names }

variable (program : Program)

/-- The globals of a program are those that it has been given last. -/
@[simp] theorem scope_withScope (scope : Scope) : (program.withScope scope).scope = scope := rfl

/-- Of two scopes that are put into a program, the last one stays. -/
@[simp] theorem withScope_withScope (scope other : Scope) :
    (program.withScope scope).withScope other = program.withScope other := rfl

/-- A program with the globals that it has is itself. -/
@[simp] theorem withScope_scope : program.withScope program.scope = program := rfl

variable {program}

/-- With more globals, all entries stay what they are. -/
theorem extends_withScope {wide : Scope} (h : program.scope.Within wide) :
    program.Extends (program.withScope wide) where
  types _ _ hentry := hentry
  values _ _ hentry := hentry
  instructions _ entry hentry := ⟨entry, hentry, rfl⟩
  functions _ entry hentry := ⟨entry, hentry, rfl, rfl⟩
  globals ref entry hentry := ⟨entry, h.globals ref entry hentry, rfl, rfl⟩

end Program

namespace Edit

variable {α β : Type}

/-! ## Edits beside the globals -/

/-- **Steps that spare the globals** neither look at the globals of a program nor change them: with
other globals they do the same beside them. -/
def Spares (step : Edit α) : Prop := ∀ (program : Program) (scope : Scope),
  step (program.withScope scope) =
    (step program).map fun result => (result.1, result.2.withScope scope)

namespace Spares

variable {step : Edit α} {next : α → Edit β}

/-- With other globals the step succeeds as well, with the same answer. -/
theorem of_eq_ok (h : Spares step) {program after : Program} {answer : α}
    (hrun : step program = .ok (answer, after)) (scope : Scope) :
    step (program.withScope scope) = .ok (answer, after.withScope scope) := by
  rw [h program scope, hrun]
  rfl

/-- The globals are left as they are. -/
theorem scope_eq (h : Spares step) {program after : Program} {answer : α}
    (hrun : step program = .ok (answer, after)) : after.scope = program.scope := by
  have hsame := h.of_eq_ok hrun program.scope
  rw [Program.withScope_scope, hrun] at hsame
  have hafter : after = after.withScope program.scope := (Prod.mk.inj (Except.ok.inj hsame)).2
  rw [hafter, Program.scope_withScope]

/-- Steps in a row. -/
theorem bind (h : Spares step) (hnext : ∀ answer, Spares (next answer)) :
    Spares (step >>= next) := by
  intro program scope
  have hsame := h program scope
  cases hrun : step program with
  | error fault =>
    rw [hrun] at hsame
    rw [Step.bind_of_error hrun, Step.bind_of_error hsame]
    rfl
  | ok result =>
    rw [hrun] at hsame
    rw [Step.bind_of_ok hrun, Step.bind_of_ok hsame]
    exact hnext result.1 result.2 scope

/-- An answer alone touches nothing. -/
theorem pure (answer : α) : Spares (Pure.pure answer : Edit α) := fun _ _ => rfl

/-- A fault is a fault whatever the globals are. -/
theorem throw (fault : Fault) : Spares (MonadExcept.throw fault : Edit α) := fun _ _ => rfl

/-- Behind a fault nothing is done. -/
theorem throw_bind (fault : Fault) : Spares (MonadExcept.throw fault >>= next) := fun _ _ => rfl

/-- Changing the answer. -/
theorem map (h : Spares step) (change : α → β) : Spares (change <$> step) := by
  rw [map_eq_pure_bind]
  exact h.bind fun answer => pure (change answer)

/-- Looking at a part of the program that is not its globals. -/
theorem get {next : Program → Edit β}
    (hnext : ∀ program scope, next (program.withScope scope) = next program)
    (h : ∀ program, Spares (next program)) :
    Spares ((MonadState.get : Edit Program) >>= next) := by
  intro program scope
  rw [Step.bind_of_ok (Step.get_apply _), Step.bind_of_ok (Step.get_apply _), hnext]
  exact h program program scope

/-- Changing a part of the program that is not its globals. -/
theorem modify {change : Program → Program}
    (h : ∀ program scope, change (program.withScope scope) = (change program).withScope scope) :
    Spares (MonadState.modifyGet fun program => (PUnit.unit, change program) : Edit PUnit) := by
  intro program scope
  exact congrArg (fun changed => Except.ok (PUnit.unit, changed)) (h program scope)

/-- A question whose answer does not rest on the globals. -/
theorem ask {query : Program → Except Fault α}
    (h : ∀ program scope, query (program.withScope scope) = query program) :
    Spares (Edit.ask query) := by
  intro program scope
  rw [Edit.ask, Edit.ask, h program scope]
  cases query program <;> rfl

/-- Steps for the elements of a list, one after the other. -/
theorem mapM {step : β → Edit α} (h : ∀ item, Spares (step item)) (items : List β) :
    Spares (items.mapM step) := by
  induction items with
  | nil => exact pure []
  | cons item items ih =>
    rw [List.mapM_cons]
    exact (h item).bind fun _ => ih.bind fun _ => pure _

end Spares

/-! ## The edits that reading makes -/

/-- The table of types is not the table of globals. -/
theorem intern_spares (name : String) (shape : TypeShape) : Spares (intern name shape) := by
  intro program scope
  rw [intern, intern, show (program.withScope scope).typeNames = program.typeNames from rfl]
  cases program.typeNames.find? name <;> rfl

/-- Looking a base type up interns a primitive type at most. -/
theorem baseType?_spares (name : String) : Spares (baseType? name) := by
  refine .get (fun _ _ => rfl) fun program => ?_
  split
  · exact .pure _
  split
  all_goals first | exact .map (intern_spares _ _) _ | exact .pure _

/-- An array type is interned under a name that its element gives. -/
theorem arrayType_spares (element : TypeRef) (size : UInt64) : Spares (arrayType element size) :=
  .bind (.ask fun _ _ => rfl) fun _ => intern_spares _ _

/-- Wrapping a base type size by size spares the globals at each of them. -/
theorem typeOfPieces_spares (base : List Char) (suffixes : List (List Char)) :
    Spares (typeOfPieces base suffixes) := by
  induction suffixes with
  | nil => exact .map (baseType?_spares _) _
  | cons suffix inner ih =>
    refine .get (fun _ _ => rfl) fun program => ?_
    split
    · exact .pure _
    split
    · exact .pure _
    refine ih.bind fun element => ?_
    split
    · exact .map (arrayType_spares _ _) _
    · exact .pure _

/-- Looking a type up by its name spares the globals, also if it creates types. -/
theorem typeByName_spares (name : String) : Spares (typeByName name) := by
  rw [typeByName]
  split
  · exact .pure _
  · exact typeOfPieces_spares _ _

/-- A function type is interned under a name that its parts give. -/
theorem functionType_spares (signature : Signature) : Spares (functionType signature) :=
  .bind (.ask fun _ _ => rfl) fun _ =>
    .bind (.mapM (fun _ => .ask fun _ _ => rfl) _) fun _ => intern_spares _ _

/-- A new value is put into the arena of values alone. -/
theorem addValue_spares (value : Value) : Spares (addValue value) := fun _ _ => rfl

/-- A new instruction is put into the arena of instructions alone. -/
theorem addInstruction_spares (operation : Operation) : Spares (addInstruction operation) :=
  fun _ _ => rfl

/-- Changing an instruction. -/
theorem updateInstruction_spares (ref : InstructionRef) (change : Instruction → Instruction) :
    Spares (updateInstruction ref change) :=
  .bind (.ask fun _ _ => rfl) fun _ => .modify fun _ _ => rfl

/-- Changing a label. -/
theorem updateLabel_spares (ref : LabelRef) (change : Label → Label) :
    Spares (updateLabel ref change) :=
  .bind (.ask fun _ _ => rfl) fun _ => .modify fun _ _ => rfl

/-- Changing a function. -/
theorem updateFunction_spares (ref : FunctionRef) (change : Function → Function) :
    Spares (updateFunction ref change) :=
  .bind (.ask fun _ _ => rfl) fun _ => .modify fun _ _ => rfl

/-- The value of an instruction is made once and noted in the instruction. -/
theorem resultValue_spares (ref : InstructionRef) : Spares (resultValue ref) := by
  refine .bind (.ask fun _ _ => rfl) fun entry => ?_
  split
  · exact .pure _
  · exact .bind (addValue_spares _) fun _ =>
      .bind (updateInstruction_spares _ _) fun _ => .pure _

/-- Naming the parameters of a function. -/
theorem setParams_spares (function : FunctionRef) (params : List String) :
    Spares (setParams function params) := updateFunction_spares _ _

/-- A new function changes the functions and the table that finds them. -/
theorem declareFunction_spares (name : String) (type : TypeRef) :
    Spares (declareFunction name type) := by
  -- the join points of the two checks take no argument that matters
  refine .bind (.ask fun _ _ => rfl) fun signature? => ?_
  split
  · exact .bind (.ask fun _ _ => rfl) fun _ => .throw_bind _
  refine .bind (.ask fun _ _ => rfl) fun function? => ?_
  split
  · exact .bind (.ask fun _ _ => rfl) fun _ => .throw_bind _
  · -- the checks have been passed, and the function is put behind the others
    exact fun _ _ => rfl

/-- A label that a function lacks is put into the function. -/
theorem labelNamed_spares (function : FunctionRef) (name : String) :
    Spares (labelNamed function name) := by
  refine .bind (.ask fun _ _ => rfl) fun label? => ?_
  split
  · exact .pure _
  · exact .bind (fun _ _ => rfl) fun _ => .bind (updateFunction_spares _ _) fun _ => .pure _

/-- Linking an instruction behind another one changes links and the end of a label. -/
theorem insertAfter_spares (point instruction : InstructionRef) :
    Spares (insertAfter point instruction) := by
  refine .bind (.ask fun _ _ => rfl) fun place => ?_
  split
  · refine .bind (.ask fun _ _ => rfl) fun entry => ?_
    have hlink (change change' : Instruction → Instruction) : Spares (do
        updateInstruction instruction change
        updateInstruction point change') :=
      .bind (updateInstruction_spares _ _) fun _ => updateInstruction_spares _ _
    -- the instruction behind the point, or else the end of the label, and whether there is a label
    split
    all_goals split
    · exact .throw_bind _
    · exact .bind (updateInstruction_spares _ _) fun _ => hlink _ _
    · exact .throw_bind _
    · exact .bind (updateLabel_spares _ _) fun _ => hlink _ _
  · exact .throw _

/-- Linking an instruction at the end of a label. -/
theorem pushBack_spares (label : LabelRef) (instruction : InstructionRef) :
    Spares (pushBack label instruction) := by
  refine .bind (.ask fun _ _ => rfl) fun entry => ?_
  split
  · exact .throw_bind _
  refine .bind (.ask fun _ _ => rfl) fun ends => ?_
  split
  · exact insertAfter_spares _ _
  · exact .bind (updateLabel_spares _ _) fun _ => updateInstruction_spares _ _

/-- Appending to a function makes the label, the links and the length. -/
theorem append_spares (function : FunctionRef) (label : String) (instruction : InstructionRef) :
    Spares (append function label instruction) :=
  .bind (labelNamed_spares _ _) fun _ => .bind (pushBack_spares _ _) fun _ =>
    updateFunction_spares _ _

/-- Appending at a cursor. -/
theorem cursorAppend_spares (cursor : Cursor) (instruction : InstructionRef) :
    Spares (cursor.append instruction) := by
  rw [Cursor.append]
  split
  · exact .pure _
  · exact .bind (append_spares _ _ _) fun _ => .pure _

end Edit

end ChainIR
