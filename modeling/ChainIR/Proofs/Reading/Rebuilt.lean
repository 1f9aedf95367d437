import Mathlib
import ChainIR.Proofs.Built
import ChainIR.Proofs.Reading.Reprint

/-! # Reading what requests have built

A program that requests have built is written as a text, and the text is read as a program of the
same outline, with a name for every parameter, if the names and types of the program are words
that a source can hold, its operands are such as can be written, and every call has the callee
that it has among the builtin functions and the functions up to the caller
(`Reading.exists_ofText_of_runAll`). -/

namespace ChainIR

/-- Every call has the callee that it has among the builtin functions and the functions up to the
one that it stands in. -/
def Outline.CalleesVisible (outline : Outline (Statement Callee)) : Prop :=
  ∀ (index : Nat) (routine : Routine (Statement Callee)), outline.routines[index]? = some routine →
    ∀ block ∈ routine.blocks, ∀ statement ∈ block.statements,
      statement.written.resolve (outline.prototypes.take (visible index)) = some statement

namespace Program

/-! ## Instructions that can be written -/

/-- Whether a value is a register, a constant, a global, or a pointer to a global of its type. -/
def isOperand (program : Program) (ref : ValueRef) : Bool :=
  match program.values.get? ref with
  | some (.register _ _) => true
  | some (.constant _) => true
  | some (.globalPointer name type) =>
    program.globals.entries.any fun entry => entry.name == name && entry.initial.type == type
  | some (.global global) => (program.globals.get? global).isSome
  | _ => false

/-- The function of a name that a call in the body of a function means: the overload among the
builtin functions and the functions up to that one. -/
def resolveIn? (program : Program) (caller : FunctionRef) (name : String)
    (arguments : List TypeRef) : Except Fault (Option FunctionRef) :=
  program.resolveAmong?
    ((program.overloadsOf name).filter fun ref => ref.index < Outline.visible caller.index)
    arguments

/-- Whether a call in the body of a function has the callee that it means there. -/
def hasCallee (program : Program) (caller callee : FunctionRef) (arguments : List ValueRef) : Bool :=
  match program.functions.get? callee, arguments.mapM program.valueType with
  | some entry, .ok types =>
    (types.mapM id).any fun types =>
      (program.resolveIn? caller entry.name types).toOption == some (some callee)
  | _, _ => false

/-- Whether an instruction in the body of a function has a result and can be written. -/
def produces (program : Program) (caller : FunctionRef) : Operation → Bool
  | .call callee arguments =>
    arguments.all program.isOperand && program.hasCallee caller callee arguments
  | .alloc _ => true
  | .load pointer => program.isOperand pointer
  | _ => false

/-- Whether a value is the result of an instruction that can be written. -/
def isResult (program : Program) (caller : FunctionRef) (ref : ValueRef) : Bool :=
  match program.values.get? ref with
  | some (.result inner) =>
    (program.instructions.get? inner).any fun entry => program.produces caller entry.operation
  | _ => false

/-- Whether an instruction in the body of a function can be written. -/
def writes (program : Program) (caller : FunctionRef) : Operation → Bool
  | .set _ value => program.isOperand value || program.isResult caller value
  | .ret value => value.all program.isOperand
  | .store pointer value => program.isOperand pointer && program.isOperand value
  | .jump _ => true
  | .branch condition _ _ => program.isOperand condition
  | operation => program.produces caller operation

/-- Whether every instruction in the body of a function can be written. -/
def writable (program : Program) : Bool :=
  program.instructions.entries.all fun entry =>
    (entry.label.bind program.labels.get?).all fun found =>
      program.writes found.function entry.operation

/-- The instruction that a result comes from. -/
theorem exists_result {program : Program} {caller : FunctionRef} {ref : ValueRef}
    (h : program.isResult caller ref) : ∃ inner entry,
      program.values.get? ref = some (.result inner) ∧
      program.instructions.get? inner = some entry ∧
      program.produces caller entry.operation := by
  rw [isResult] at h
  split at h
  · next inner hvalue =>
    rw [Option.any_eq_true] at h
    obtain ⟨entry, hentry, hproduces⟩ := h
    exact ⟨inner, entry, hvalue, hentry, hproduces⟩
  · exact absurd h Bool.false_ne_true

/-- What stands in a body of a program that can be written can be written. -/
theorem writes_of_writable {program : Program} (h : program.writable) {ref : InstructionRef}
    {entry : Instruction} (hentry : program.instructions.get? ref = some entry)
    {label : LabelRef} (hlabel : entry.label = some label) {found : Label}
    (hfound : program.labels.get? label = some found) :
    program.writes found.function entry.operation := by
  rw [writable, Array.all_eq_true_iff_forall_mem] at h
  have hentryWrites := h entry (Array.mem_of_getElem? hentry)
  rwa [hlabel, Option.bind_some, hfound, Option.all_some] at hentryWrites

/-! ## From programs to outlines -/

section Statements

variable {program : Program} {layout : Outline InstructionRef} {target : String → Prop}
  (h : program.Built layout) (hspelled : program.Spelled target)

include h hspelled

/-- A value that can be written is an operand. -/
theorem exists_operand {ref : ValueRef} (his : program.isOperand ref) :
    ∃ operand, program.OperandIs ref operand := by
  rw [isOperand] at his
  split at his
  · next name type hvalue =>
    obtain ⟨-, typeName, htype, -⟩ := hspelled.registers name type (Array.mem_of_getElem? hvalue)
    exact ⟨.register name typeName, type, hvalue, htype⟩
  · next constant hvalue =>
    exact ⟨.constant constant.literal, constant.type, hvalue, h.constants ref constant hvalue⟩
  · next name type hvalue =>
    obtain ⟨index, hlt, hsame⟩ := Array.any_eq_true.1 his
    have hentry : program.globals.get? ⟨index⟩ = some program.globals.entries[index] :=
      Array.getElem?_eq_getElem hlt
    generalize program.globals.entries[index] = entry at hsame hentry
    simp only [Bool.and_eq_true, beq_iff_eq] at hsame
    obtain ⟨rfl, rfl⟩ := hsame
    obtain ⟨binding, -, hbinding⟩ := h.globals ⟨index⟩ entry hentry
    exact ⟨.global entry.name _, ⟨index⟩, entry, hentry, rfl, hbinding.type, .inl hvalue⟩
  · next global hvalue =>
    obtain ⟨entry, hentry⟩ := Option.isSome_iff_exists.1 his
    obtain ⟨binding, -, hbinding⟩ := h.globals global entry hentry
    exact ⟨.global entry.name _, global, entry, hentry, rfl, hbinding.type, .inr hvalue⟩
  · exact absurd his Bool.false_ne_true

omit hspelled in
/-- A call that has the callee that it means is resolved to it. -/
theorem resolveIn_of_hasCallee {caller callee : FunctionRef} {arguments : List ValueRef}
    {operands : List Operand} (hoperands : List.Forall₂ program.OperandIs arguments operands)
    (hcallee : program.hasCallee caller callee arguments) :
    ∃ entry, program.functions.get? callee = some entry ∧
      resolveIn (layout.prototypes.take (Outline.visible caller.index)) entry.name
        (operands.map Operand.type) = some callee := by
  obtain ⟨types, hvalues, hnames⟩ := LineReader.forall₂_valueType hoperands
  have htypes : arguments.mapM program.valueType = .ok (types.map some) :=
    mapM_of_forall₂ (List.forall₂_map_right_iff.2 hvalues)
  rw [hasCallee, htypes] at hcallee
  cases hentry : program.functions.get? callee with
  | none =>
    rw [hentry] at hcallee
    exact absurd hcallee Bool.false_ne_true
  | some entry =>
    have hmeant := h.resolveAmong?_eq
      (List.take_prefix (Outline.visible caller.index) layout.prototypes) entry.name hnames
    rw [overloadsIn_take, ← h.overloads] at hmeant
    simp only [hentry, LineReader.mapM_id_map_some, Option.any_some, resolveIn?, hmeant,
      Except.toOption, beq_iff_eq, Option.some.injEq] at hcallee
    exact ⟨entry, rfl, hcallee⟩

/-- An instruction with a result that can be written has the callee that is meant. -/
theorem exists_producer {caller : FunctionRef} {ref : InstructionRef} {entry : Instruction}
    (hentry : program.instructions.get? ref = some entry)
    (hproduces : program.produces caller entry.operation) :
    ∃ producer, program.ProducerIs entry.operation producer ∧
      (producer.map Callee.name).resolve (layout.prototypes.take (Outline.visible caller.index)) =
        some producer := by
  have hspelledIn := hspelled.operation hentry
  -- nothing else of the entry is needed, and a bare operation can be split
  generalize entry.operation = operation at hproduces hspelledIn
  cases operation with
  | call callee arguments =>
    rw [produces, Bool.and_eq_true, List.all_eq_true] at hproduces
    obtain ⟨harguments, hcallee⟩ := hproduces
    obtain ⟨operands, hoperands⟩ := exists_forall₂ fun argument hmem =>
      exists_operand h hspelled (harguments argument hmem)
    obtain ⟨function, hfunction, hmeant⟩ := resolveIn_of_hasCallee h hoperands hcallee
    refine ⟨.call ⟨function.name, callee⟩ operands, ⟨arguments, rfl, ⟨function, hfunction, rfl⟩,
      hoperands⟩, ?_⟩
    rw [Producer.map, Producer.resolve, hmeant]
    rfl
  | alloc type =>
    obtain ⟨name, hname, -⟩ := hspelledIn
    exact ⟨.alloc name, ⟨type, rfl, hname⟩, rfl⟩
  | load pointer =>
    obtain ⟨operand, hoperand⟩ := exists_operand h hspelled hproduces
    exact ⟨.load operand, ⟨pointer, rfl, hoperand⟩, rfl⟩
  | ret | set | store | jump | branch => exact absurd hproduces Bool.false_ne_true

/-- An instruction that can be written is a statement, and has the callee that is meant. -/
theorem exists_statement {caller : FunctionRef} {ref : InstructionRef} {entry : Instruction}
    (hentry : program.instructions.get? ref = some entry)
    (hwrites : program.writes caller entry.operation) :
    ∃ statement, program.StatementIs ref statement ∧
      statement.written.resolve (layout.prototypes.take (Outline.visible caller.index)) =
        some statement := by
  -- the three forms that produce a value are read in one way, as a line and behind a register
  have hproduce : program.produces caller entry.operation → ∃ statement,
      program.StatementIs ref statement ∧ statement.written.resolve
        (layout.prototypes.take (Outline.visible caller.index)) = some statement := by
    intro hproduces
    obtain ⟨producer, his, hmeant⟩ := exists_producer h hspelled hentry hproduces
    refine ⟨.produce producer, ⟨entry, hentry, his⟩, ?_⟩
    rw [Statement.written, Statement.map, Statement.resolve, hmeant]
    rfl
  cases hoperation : entry.operation with
  | call | alloc | load =>
    rw [hoperation] at hwrites
    exact hproduce (hoperation ▸ hwrites)
  | set name value =>
    rw [hoperation] at hwrites
    rcases Bool.or_eq_true_iff.1 hwrites with hoperand | hresult
    · obtain ⟨operand, his⟩ := exists_operand h hspelled hoperand
      exact ⟨.set name operand, ⟨entry, hentry, value, hoperation, his⟩, rfl⟩
    · obtain ⟨inner, innerEntry, hvalue, hinner, hproduces⟩ := exists_result hresult
      obtain ⟨producer, his, hmeant⟩ := exists_producer h hspelled hinner hproduces
      refine ⟨.assign name producer, ⟨entry, hentry, value, inner, innerEntry, hoperation, hvalue,
        hinner, his⟩, ?_⟩
      rw [Statement.written, Statement.map, Statement.resolve, hmeant]
      rfl
  | ret value =>
    rw [hoperation] at hwrites
    cases value with
    | none => exact ⟨.ret none, ⟨entry, hentry, hoperation⟩, rfl⟩
    | some value =>
      obtain ⟨operand, his⟩ := exists_operand h hspelled hwrites
      exact ⟨.ret (some operand), ⟨entry, hentry, value, hoperation, his⟩, rfl⟩
  | store pointer value =>
    rw [hoperation] at hwrites
    rw [writes, Bool.and_eq_true] at hwrites
    obtain ⟨target, hpointer⟩ := exists_operand h hspelled hwrites.1
    obtain ⟨operand, his⟩ := exists_operand h hspelled hwrites.2
    exact ⟨.store target operand, ⟨entry, hentry, pointer, value, hoperation, hpointer, his⟩, rfl⟩
  | jump name => exact ⟨.jump name, ⟨entry, hentry, hoperation⟩, rfl⟩
  | branch condition whenTrue whenFalse =>
    rw [hoperation] at hwrites
    obtain ⟨operand, his⟩ := exists_operand h hspelled hwrites
    exact ⟨.branch operand whenTrue whenFalse, ⟨entry, hentry, condition, hoperation, his⟩, rfl⟩

/-- A program whose instructions can be written is shown by an outline in which every call has the
callee that it has among the functions up to the caller. -/
theorem exists_outline_of_writable (hwritable : program.writable) :
    ∃ outline, program.Shows layout outline ∧ outline.CalleesVisible := by
  -- a statement for every instruction, a block for every block, and a routine for every routine
  have hroutine : ∀ numbered ∈ layout.routines.zipIdx, ∃ routine : Routine (Statement Callee),
      Routine.Rel (fun ref statement => program.StatementIs ref statement ∧
        statement.written.resolve (layout.prototypes.take (Outline.visible numbered.2)) =
          some statement) numbered.1 routine := by
    rintro ⟨laid, index⟩ hmem
    have hlaid := List.mem_zipIdx_iff_getElem?.1 hmem
    obtain ⟨function, hfunction, his⟩ := h.function_of_routine hlaid
    have hblock : ∀ block ∈ laid.blocks, ∃ shown : Block (Statement Callee),
        Block.Rel (fun ref statement => program.StatementIs ref statement ∧
          statement.written.resolve (layout.prototypes.take (Outline.visible index)) =
            some statement) block shown := by
      intro block hblock
      obtain ⟨label, -, hlabel⟩ := exists_of_forall₂ his.labels hblock
      obtain ⟨found, hfound, -, howner⟩ := hlabel.entry
      obtain ⟨statements, hstatements⟩ := exists_forall₂ fun ref href => by
        obtain ⟨entry, hentry, hlinked⟩ := hlabel.chain.label_of_mem href
        have hwrites := writes_of_writable hwritable hentry hlinked hfound
        rw [howner] at hwrites
        exact exists_statement h hspelled hentry hwrites
      exact ⟨⟨block.name, statements⟩, rfl, hstatements⟩
    obtain ⟨blocks, hblocks⟩ := exists_forall₂ hblock
    exact ⟨⟨laid.prototype, laid.params, blocks⟩, rfl, rfl, hblocks⟩
  obtain ⟨routines, hroutines⟩ := exists_forall₂ hroutine
  have hrel : layout.Rel program.StatementIs ⟨layout.globals, routines⟩ := by
    refine ⟨rfl, ?_⟩
    have hmap : layout.routines.zipIdx.map Prod.fst = layout.routines := List.zipIdx_map_fst ..
    rw [← hmap, List.forall₂_map_left_iff]
    exact hroutines.imp fun _ _ hnumbered => hnumbered.imp fun _ _ his => his.1
  refine ⟨⟨layout.globals, routines⟩, ⟨h.toWellFormed, hrel⟩, ?_⟩
  intro index routine hindex block hblock statement hstatement
  have hindex' : routines[index]? = some routine := hindex
  obtain ⟨hlength, hpairs⟩ := List.forall₂_iff_get.1 hroutines
  obtain ⟨hlt, rfl⟩ := List.getElem?_eq_some_iff.1 hindex'
  have hnumbered := hpairs index (by omega) hlt
  obtain ⟨laidBlock, -, hrelBlock⟩ := exists_of_forall₂ hnumbered.blocks hblock
  obtain ⟨ref, -, -, hmeant⟩ := exists_of_forall₂ hrelBlock.2 hstatement
  rw [← hrel.prototypes_eq]
  simpa using hmeant

end Statements

end Program

namespace Outline

/-- Questions about changed elements whose answers are the elements. -/
theorem mapM_map_of_forall {α β : Type} {change : α → β} {answer? : β → Option α} {items : List α}
    (h : ∀ item ∈ items, answer? (change item) = some item) :
    (items.map change).mapM answer? = some items := by
  induction items with
  | nil => rfl
  | cons item items ih =>
    obtain ⟨hitem, hitems⟩ := List.forall_mem_cons.1 h
    rw [List.map_cons, List.mapM_cons, hitem, ih hitems]
    rfl

/-- An outline in which every call has the callee that it has among the functions up to the caller
is read back as it is, with all names. -/
theorem reread_written {outline : Outline (Statement Callee)} (h : outline.CalleesVisible) :
    (outline.map Statement.written).reread = some outline.named := by
  have hblock : ∀ (prototypes : List Prototype) (block : Block (Statement Callee)),
      (∀ statement ∈ block.statements, statement.written.resolve prototypes = some statement) →
      (block.map Statement.written).resolve prototypes = some block := by
    intro prototypes block hmeant
    rw [Block.resolve, Block.map, mapM_map_of_forall hmeant]
    rfl
  -- the place of a routine decides what it may call, so the induction is over all starts
  have hroutines : ∀ (routines : List (Routine (Statement Callee))) (start : Nat),
      (∀ (index : Nat) (routine : Routine (Statement Callee)), routines[index]? = some routine →
        ∀ block ∈ routine.blocks, ∀ statement ∈ block.statements, statement.written.resolve
          (outline.prototypes.take (visible (start + index))) = some statement) →
      resolveFrom outline.prototypes start (routines.map (Routine.map Statement.written)) =
        some (routines.map Routine.named) := by
    intro routines
    induction routines with
    | nil => intro start hmeant; rfl
    | cons routine routines ih =>
      intro start hmeant
      have hfirst : (routine.map Statement.written).resolve
          (outline.prototypes.take (visible start)) = some routine.named := by
        have hblocks := mapM_map_of_forall fun block hmem =>
          hblock _ block (hmeant 0 routine rfl block hmem)
        rw [Nat.add_zero] at hblocks
        simp only [Routine.resolve, Routine.map, hblocks, Option.map_some]
        rfl
      have hrest := ih (start + 1) fun index other hother => by
        rw [Nat.add_assoc, Nat.add_comm 1]
        exact hmeant (index + 1) other hother
      rw [List.map_cons, resolveFrom, hfirst, Option.bind_some, hrest]
      rfl
  rw [reread, prototypes_map, map, hroutines outline.routines 0 fun index routine hroutine => by
    rw [Nat.zero_add]
    exact h index routine hroutine]
  rfl

end Outline

/-! ## Texts of programs -/

namespace Reading

/-- **What requests have built is read back from its text.** A program with names and types that a
source can hold, with operands that can be written, and with calls that have the callee that they
have among the builtin functions and the functions up to the caller, is written as a text that is
accepted. What is then read has the same outline, with a name for every parameter, and is written as
the same text. -/
theorem exists_ofText_of_runAll {requests : List Request} {program : Program}
    (hrun : Request.runAll requests Program.initial = .ok ((), program))
    (hspelled : program.Spelled IsTarget) (hwritable : program.writable) :
    ∃ outline text again, program.ShownBy outline ∧ program.text = .ok text ∧
      (ofText text).result = .ok again ∧ again.ShownBy outline.named ∧ again.text = .ok text := by
  obtain ⟨layout, hbuilt⟩ := Request.built_of_runAll hrun
  obtain ⟨outline, hshows, hcallees⟩ :=
    Program.exists_outline_of_writable hbuilt hspelled hwritable
  have hshown : program.ShownBy outline := ⟨layout, hshows⟩
  have hprototypes : builtinPrototypes <+: outline.prototypes := by
    rw [← hshows.statements.prototypes_eq]
    exact hbuilt.builtins
  have hdecides := ofText_decides (hshown.readable hspelled hprototypes)
  have hreread := Outline.reread_written hcallees
  rw [hreread] at hdecides
  obtain ⟨again, hagain, hshown'⟩ := hdecides
  refine ⟨outline, _, again, hshown, hshown.text_eq, hagain, hshown', ?_⟩
  rw [hshown'.text_eq, Outline.text_reread hreread]

/-- A function that calls itself for a register, behind which it stores through a pointer to a
global, is read back. -/
theorem exists_ofText_recursive : ∃ (program : Program) (outline : Outline (Statement Callee))
      (text : String) (again : Program),
    Request.runAll [.define "g" (.str "a"), .declare "f" ⟨7⟩, .addRegister "x" ⟨1⟩,
      .addInstruction (.call ⟨13⟩ [⟨0⟩]), .getResult ⟨0⟩, .addInstruction (.set "y" ⟨1⟩),
      .append ⟨13⟩ "" ⟨1⟩, .addGlobalPointer "g" ⟨2⟩, .addInstruction (.store ⟨2⟩ ⟨0⟩),
      .insertAfter ⟨1⟩ ⟨2⟩] Program.initial = .ok ((), program) ∧
    program.text = .ok text ∧ (ofText text).result = .ok again ∧ again.ShownBy outline.named ∧
    again.text = .ok text := by
  have hbuilt : Step.leadsTo (Request.runAll [.define "g" (.str "a"), .declare "f" ⟨7⟩,
      .addRegister "x" ⟨1⟩, .addInstruction (.call ⟨13⟩ [⟨0⟩]), .getResult ⟨0⟩,
      .addInstruction (.set "y" ⟨1⟩), .append ⟨13⟩ "" ⟨1⟩, .addGlobalPointer "g" ⟨2⟩,
      .addInstruction (.store ⟨2⟩ ⟨0⟩), .insertAfter ⟨1⟩ ⟨2⟩]) Program.initial
      (fun program => program.spelledSimply && program.writable) = true := by decide +kernel
  obtain ⟨⟨⟩, program, hrun, htest⟩ := Step.exists_of_leadsTo hbuilt
  rw [Bool.and_eq_true] at htest
  obtain ⟨outline, text, again, -, htext, hread, hagain, hsame⟩ :=
    exists_ofText_of_runAll hrun (Program.spelled_of_spelledSimply htest.1) htest.2
  exact ⟨program, outline, text, again, hrun, htext, hread, hagain, hsame⟩

end Reading

end ChainIR
