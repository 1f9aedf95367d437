import Mathlib
import ChainIR.Proofs.Outline.Edits

/-! # Programs that outlines show

An outline shows a program if the program is laid out as the outline says and every instruction
under a label is the statement at its place. Whatever the program, its text is then that of the
outline (`Program.Shows.text_eq`), and its text is all that `Program.text` reads of it. -/

namespace ChainIR

/-- Questions that all have answers. -/
theorem mapM_of_forall₂ {α β ε : Type} {query : α → Except ε β} {items : List α}
    {answers : List β} (h : List.Forall₂ (fun item answer => query item = .ok answer) items answers) :
    items.mapM query = .ok answers := by
  induction h with
  | nil => rfl
  | cons hfirst _ ih =>
    rw [List.mapM_cons, hfirst, ih]
    rfl

@[simp] theorem Literal.text_word (literal : Literal) : literal.word.text = literal.text := by
  cases literal <;> rfl

namespace Program

/-! ## What is shown -/

/-- A value is an operand. -/
def OperandIs (program : Program) (ref : ValueRef) : Operand → Prop
  | .register name type => ∃ typeRef, program.values.get? ref = some (.register name typeRef) ∧
      program.typeName typeRef = .ok type
  | .global name type => ∃ global entry, program.globals.get? global = some entry ∧
      entry.name = name ∧ program.typeName entry.initial.type = .ok type ∧
      (program.values.get? ref = some (.globalPointer name entry.initial.type) ∨
        program.values.get? ref = some (.global global))
  | .constant literal => ∃ typeRef,
      program.values.get? ref = some (.constant ⟨typeRef, literal⟩) ∧
      program.typeName typeRef = .ok literal.typeName

/-- An operation gives the result that a producer tells of. -/
def ProducerIs (program : Program) (operation : Operation) : Producer Callee → Prop
  | .call callee arguments => ∃ values, operation = .call callee.function values ∧
      (∃ entry, program.functions.get? callee.function = some entry ∧ entry.name = callee.name) ∧
      List.Forall₂ program.OperandIs values arguments
  | .alloc type => ∃ typeRef, operation = .alloc typeRef ∧ program.typeName typeRef = .ok type
  | .load pointer => ∃ value, operation = .load value ∧ program.OperandIs value pointer

/-- An operation is a statement. -/
def OperationIs (program : Program) (operation : Operation) : Statement Callee → Prop
  | .produce producer => program.ProducerIs operation producer
  | .assign name producer => ∃ value inner entry, operation = .set name value ∧
      program.values.get? value = some (.result inner) ∧
      program.instructions.get? inner = some entry ∧ program.ProducerIs entry.operation producer
  | .set name operand => ∃ value, operation = .set name value ∧ program.OperandIs value operand
  | .ret none => operation = .ret none
  | .ret (some operand) => ∃ value, operation = .ret (some value) ∧
      program.OperandIs value operand
  | .store pointer operand => ∃ pointerValue value, operation = .store pointerValue value ∧
      program.OperandIs pointerValue pointer ∧ program.OperandIs value operand
  | .jump target => operation = .jump target
  | .branch condition whenTrue whenFalse => ∃ value,
      operation = .branch value whenTrue whenFalse ∧ program.OperandIs value condition

/-- An instruction is a statement. -/
def StatementIs (program : Program) (ref : InstructionRef) (statement : Statement Callee) : Prop :=
  ∃ entry, program.instructions.get? ref = some entry ∧
    program.OperationIs entry.operation statement

/-- An outline shows a program that is laid out in a certain way. -/
structure Shows (program : Program) (layout : Outline InstructionRef)
    (outline : Outline (Statement Callee)) : Prop extends program.WellFormed layout where
  /-- The instructions are the statements. -/
  statements : layout.Rel program.StatementIs outline

section Mono

variable {program after : Program} (h : program.Extends after)

include h

/-- Values stay the operands that they are. -/
theorem OperandIs.mono {ref : ValueRef} {operand : Operand} (his : program.OperandIs ref operand) :
    after.OperandIs ref operand := by
  cases operand with
  | register name type =>
    obtain ⟨typeRef, hvalue, htype⟩ := his
    exact ⟨typeRef, h.values _ _ hvalue, h.typeName htype⟩
  | global name type =>
    obtain ⟨global, entry, hglobal, hname, htype, hvalue⟩ := his
    obtain ⟨entry', hglobal', hname', hinitial⟩ := h.globals _ _ hglobal
    refine ⟨global, entry', hglobal', hname'.trans hname, ?_, ?_⟩
    · rw [hinitial]
      exact h.typeName htype
    · rw [hinitial]
      exact hvalue.imp (h.values _ _) (h.values _ _)
  | constant literal =>
    obtain ⟨typeRef, hvalue, htype⟩ := his
    exact ⟨typeRef, h.values _ _ hvalue, h.typeName htype⟩

/-- What an instruction with a result shows does not change as the program grows. -/
theorem ProducerIs.mono {operation : Operation} {producer : Producer Callee}
    (his : program.ProducerIs operation producer) : after.ProducerIs operation producer := by
  cases producer with
  | call callee arguments =>
    obtain ⟨values, hoperation, ⟨entry, hentry, hname⟩, harguments⟩ := his
    obtain ⟨entry', hentry', hname', -⟩ := h.functions _ _ hentry
    exact ⟨values, hoperation, ⟨entry', hentry', hname'.trans hname⟩,
      harguments.imp fun _ _ => OperandIs.mono h⟩
  | alloc type =>
    obtain ⟨typeRef, hoperation, htype⟩ := his
    exact ⟨typeRef, hoperation, h.typeName htype⟩
  | load pointer =>
    obtain ⟨value, hoperation, hpointer⟩ := his
    exact ⟨value, hoperation, hpointer.mono h⟩

/-- What an instruction shows does not change as the program grows. -/
theorem OperationIs.mono {operation : Operation} {statement : Statement Callee}
    (his : program.OperationIs operation statement) : after.OperationIs operation statement := by
  cases statement with
  | produce producer => exact ProducerIs.mono h his
  | assign name producer =>
    obtain ⟨value, inner, entry, hoperation, hvalue, hentry, hproducer⟩ := his
    obtain ⟨entry', hentry', hsame⟩ := h.instructions _ _ hentry
    exact ⟨value, inner, entry', hoperation, h.values _ _ hvalue, hentry',
      hsame ▸ hproducer.mono h⟩
  | set name operand =>
    obtain ⟨value, hoperation, hoperand⟩ := his
    exact ⟨value, hoperation, hoperand.mono h⟩
  | ret operand =>
    cases operand with
    | none => exact his
    | some operand =>
      obtain ⟨value, hoperation, hoperand⟩ := his
      exact ⟨value, hoperation, hoperand.mono h⟩
  | store pointer operand =>
    obtain ⟨pointerValue, value, hoperation, hpointer, hoperand⟩ := his
    exact ⟨pointerValue, value, hoperation, hpointer.mono h, hoperand.mono h⟩
  | jump target => exact his
  | branch condition whenTrue whenFalse =>
    obtain ⟨value, hoperation, hcondition⟩ := his
    exact ⟨value, hoperation, hcondition.mono h⟩

/-- Instructions stay the statements that they are. -/
theorem StatementIs.mono {ref : InstructionRef} {statement : Statement Callee}
    (his : program.StatementIs ref statement) : after.StatementIs ref statement := by
  obtain ⟨entry, hentry, hoperation⟩ := his
  obtain ⟨entry', hentry', hsame⟩ := h.instructions _ _ hentry
  exact ⟨entry', hentry', hsame ▸ hoperation.mono h⟩

end Mono

/-! ## Types and words of operands -/

variable {program : Program}

/-- The type of an operand. -/
theorem OperandIs.valueTypeWith_eq {ref : ValueRef} {operand : Operand}
    (h : program.OperandIs ref operand)
    (resultType : InstructionRef → Except Fault (Option TypeRef)) :
    ∃ typeRef, program.valueTypeWith resultType ref = .ok (some typeRef) ∧
      program.typeName typeRef = .ok operand.type := by
  cases operand with
  | register name type =>
    obtain ⟨typeRef, hvalue, htype⟩ := h
    refine ⟨typeRef, ?_, htype⟩
    rw [valueTypeWith, show program.value ref = .ok _ from found_eq_ok.2 hvalue]
    rfl
  | global name type =>
    -- a global is a pointer of its type or the value that was asked of its entry
    obtain ⟨global, entry, hglobal, rfl, htype, hvalue | hvalue⟩ := h
    · refine ⟨entry.initial.type, ?_, htype⟩
      rw [valueTypeWith, show program.value ref = .ok _ from found_eq_ok.2 hvalue]
      rfl
    · refine ⟨entry.initial.type, ?_, htype⟩
      simp only [valueTypeWith, show program.value ref = .ok _ from found_eq_ok.2 hvalue,
        show program.global global = .ok _ from found_eq_ok.2 hglobal, bind, Except.bind, pure,
        Except.pure]
  | constant literal =>
    obtain ⟨typeRef, hvalue, htype⟩ := h
    refine ⟨typeRef, ?_, htype⟩
    rw [valueTypeWith, show program.value ref = .ok _ from found_eq_ok.2 hvalue]
    rfl

/-- The words of an operand. -/
theorem OperandIs.valueWordsWith_eq {ref : ValueRef} {operand : Operand}
    (h : program.OperandIs ref operand)
    (instructionWords : InstructionRef → Except Fault (List String)) :
    program.valueWordsWith instructionWords ref = .ok (operand.words.map Word.text) := by
  cases operand with
  | register name type =>
    obtain ⟨typeRef, hvalue, htype⟩ := h
    simp only [valueWordsWith, show program.value ref = .ok _ from found_eq_ok.2 hvalue, htype,
      bind, Except.bind, pure, Except.pure]
    rfl
  | global name type =>
    obtain ⟨global, entry, hglobal, rfl, htype, hvalue | hvalue⟩ := h
    · rw [valueWordsWith, show program.value ref = .ok _ from found_eq_ok.2 hvalue]
      rfl
    · simp only [valueWordsWith, show program.value ref = .ok _ from found_eq_ok.2 hvalue,
        show program.global global = .ok _ from found_eq_ok.2 hglobal, bind, Except.bind, pure,
        Except.pure]
      rfl
  | constant literal =>
    obtain ⟨typeRef, hvalue, htype⟩ := h
    simp only [valueWordsWith, show program.value ref = .ok _ from found_eq_ok.2 hvalue,
      constantWords, htype, bind, Except.bind, pure, Except.pure, Operand.words, Literal.words,
      List.map_cons, List.map_nil, Literal.text_word]
    rfl

/-- The words of operands one after the other. -/
theorem mapM_valueWordsWith {refs : List ValueRef} {operands : List Operand}
    (h : List.Forall₂ program.OperandIs refs operands)
    (instructionWords : InstructionRef → Except Fault (List String)) :
    refs.mapM (program.valueWordsWith instructionWords) =
      .ok (operands.map fun operand => operand.words.map Word.text) := by
  refine mapM_of_forall₂ (List.forall₂_map_right_iff.2 ?_)
  exact h.imp fun _ _ his => his.valueWordsWith_eq instructionWords

/-- The words of an instruction that has a result. -/
theorem ProducerIs.words_eq {ref : InstructionRef} {entry : Instruction}
    {producer : Producer Callee} (hentry : program.instructions.get? ref = some entry)
    (h : program.ProducerIs entry.operation producer) (depth : Nat) :
    program.instructionWordsWithin (depth + 1) ref =
      .ok ((producer.map Callee.name).words.map Word.text) := by
  have hinstruction : program.instruction ref = .ok entry := found_eq_ok.2 hentry
  cases producer with
  | call callee arguments =>
    obtain ⟨values, hoperation, ⟨function, hfunction, hname⟩, harguments⟩ := h
    simp only [instructionWordsWithin, hinstruction, hoperation,
      show program.function callee.function = .ok function from found_eq_ok.2 hfunction, hname,
      mapM_valueWordsWith harguments, bind, Except.bind, pure, Except.pure, Producer.map,
      Producer.words, List.map_append, List.map_flatten, List.map_map]
    rfl
  | alloc type =>
    obtain ⟨typeRef, hoperation, htype⟩ := h
    simp only [instructionWordsWithin, hinstruction, hoperation, htype, bind, Except.bind, pure,
      Except.pure]
    rfl
  | load pointer =>
    obtain ⟨value, hoperation, hpointer⟩ := h
    simp only [instructionWordsWithin, hinstruction, hoperation, hpointer.valueWordsWith_eq, bind,
      Except.bind, pure, Except.pure]
    rfl

/-- The words of an instruction. -/
theorem StatementIs.words_eq {ref : InstructionRef} {statement : Statement Callee}
    (h : program.StatementIs ref statement) :
    program.instructionWords ref = .ok (statement.written.words.map Word.text) := by
  obtain ⟨entry, hentry, h⟩ := h
  have hinstruction : program.instruction ref = .ok entry := found_eq_ok.2 hentry
  cases statement with
  | produce producer => exact ProducerIs.words_eq hentry h _
  | assign name producer =>
    obtain ⟨value, inner, innerEntry, hoperation, hvalue, hinner, hproducer⟩ := h
    -- there is an instruction, so the bound leaves a step for the one under the register
    obtain ⟨depth, hdepth⟩ : ∃ depth, program.instructions.size = depth + 1 :=
      ⟨program.instructions.size - 1, by have := Arena.lt_size_of_get? hentry; omega⟩
    have hwords := ProducerIs.words_eq hinner hproducer depth
    simp only [instructionWords, operandDepth, hdepth, instructionWordsWithin, hinstruction,
      hoperation, valueWordsWith, show program.value value = .ok _ from found_eq_ok.2 hvalue,
      bind, Except.bind, pure, Except.pure] at hwords ⊢
    rw [hwords]
    rfl
  | set name operand =>
    obtain ⟨value, hoperation, hoperand⟩ := h
    simp only [instructionWords, operandDepth, instructionWordsWithin, hinstruction, hoperation,
      hoperand.valueWordsWith_eq, bind, Except.bind, pure, Except.pure]
    rfl
  | ret operand =>
    cases operand with
    | none =>
      have hoperation : entry.operation = .ret none := h
      simp only [instructionWords, operandDepth, instructionWordsWithin, hinstruction, hoperation,
        bind, Except.bind, pure, Except.pure]
      rfl
    | some operand =>
      obtain ⟨value, hoperation, hoperand⟩ := h
      simp only [instructionWords, operandDepth, instructionWordsWithin, hinstruction, hoperation,
        hoperand.valueWordsWith_eq, bind, Except.bind, pure, Except.pure]
      rfl
  | store pointer operand =>
    obtain ⟨pointerValue, value, hoperation, hpointer, hoperand⟩ := h
    simp only [instructionWords, operandDepth, instructionWordsWithin, hinstruction, hoperation,
      hpointer.valueWordsWith_eq, hoperand.valueWordsWith_eq, bind, Except.bind, pure,
      Except.pure, Statement.written, Statement.map, Statement.words, List.map_cons,
      List.map_append]
    rfl
  | jump target =>
    have hoperation : entry.operation = .jump target := h
    simp only [instructionWords, operandDepth, instructionWordsWithin, hinstruction, hoperation,
      bind, Except.bind, pure, Except.pure]
    rfl
  | branch condition whenTrue whenFalse =>
    obtain ⟨value, hoperation, hcondition⟩ := h
    simp only [instructionWords, operandDepth, instructionWordsWithin, hinstruction, hoperation,
      hcondition.valueWordsWith_eq, bind, Except.bind, pure, Except.pure, Statement.written,
      Statement.map, Statement.words, List.map_cons, List.map_append]
    rfl

/-- **The text of an instruction** is that of its statement. -/
theorem StatementIs.text_eq {ref : InstructionRef} {statement : Statement Callee}
    (h : program.StatementIs ref statement) :
    program.instructionText ref = .ok (spaced (statement.written.words.map Word.text)) := by
  rw [instructionText, h.words_eq]
  rfl

/-! ## Lines -/

/-- The text of words. -/
theorem text_false (words : List Word) :
    (⟨false, words⟩ : TextLine).text = spaced (words.map Word.text) := by
  simp [TextLine.text]

/-- The words of parameters. -/
theorem paramWords_eq {types : List TypeRef} {typeNames : List String}
    (h : List.Forall₂ (fun type name => program.typeName type = .ok name) types typeNames)
    (index : Nat) (names : List String) :
    program.paramWords index types names =
      .ok ((Routine.paramWords typeNames (Routine.completed index typeNames names)).map
        Word.text) := by
  induction h generalizing index names with
  | nil => rfl
  | cons hname _ ih =>
    simp only [paramWords, hname, ih, bind, Except.bind, pure, Except.pure, Routine.completed,
      Routine.paramWords, List.map_cons]
    rfl

/-- The lines of a label and what stands under it. -/
theorem blockLines_eq {function : FunctionRef} {label : LabelRef} {block : Block InstructionRef}
    {shown : Block (Statement Callee)} (hlabel : program.LabelIs function label block)
    (hshown : Block.Rel program.StatementIs block shown) (isFirst : Bool) :
    program.blockLines isFirst label =
      .ok (((shown.map Statement.written).lines isFirst).map TextLine.text) := by
  obtain ⟨entry, hentry, hname, -⟩ := hlabel.entry
  obtain ⟨hname', hstatements⟩ := hshown
  have htexts : block.statements.mapM (fun instruction => do
      return "\t" ++ (← program.instructionText instruction) : InstructionRef → Except Fault String) =
      .ok ((shown.map Statement.written).statements.map fun statement =>
        TextLine.text ⟨true, statement.words⟩) := by
    refine mapM_of_forall₂ ?_
    rw [Block.map, List.map_map, List.forall₂_map_right_iff]
    refine hstatements.imp fun ref statement his => ?_
    rw [his.text_eq]
    rfl
  -- only the entry block may be without its label line
  have hopening : labelLines isFirst entry.name =
      (if isFirst && (shown.map Statement.written).name.isEmpty then []
        else [(⟨false, [.bare ("@" ++ shown.name)]⟩ : TextLine)]).map TextLine.text := by
    rw [labelLines, hname, hname', Block.map]
    split
    · rfl
    · simp [text_false, spaced, Word.text]
  simp only [blockLines, show program.label label = .ok entry from found_eq_ok.2 hentry,
    hlabel.chain.chain_eq, bind, Except.bind, pure, Except.pure]
  simp only [bind, Except.bind, pure, Except.pure] at htexts
  rw [htexts, hopening, Block.lines, List.map_append, List.map_map]
  rfl

/-- The lines of labels. -/
theorem bodyLines_eq {function : FunctionRef} {labels : List LabelRef}
    {blocks : List (Block InstructionRef)} {shown : List (Block (Statement Callee))}
    (hlabels : List.Forall₂ (program.LabelIs function) labels blocks)
    (hshown : List.Forall₂ (Block.Rel program.StatementIs) blocks shown) (isFirst : Bool) :
    program.bodyLines isFirst labels =
      .ok ((Routine.bodyLines isFirst (shown.map (Block.map Statement.written))).map
        TextLine.text) := by
  induction hlabels generalizing shown isFirst with
  | nil =>
    cases hshown
    rfl
  | cons hfirst _ ih =>
    cases hshown with
    | cons hfirst' hrest' =>
      simp only [bodyLines, blockLines_eq hfirst hfirst', ih hrest', bind, Except.bind, pure,
        Except.pure, List.map_cons, Routine.bodyLines, List.map_append]

namespace Shows

variable {layout : Outline InstructionRef} {outline : Outline (Statement Callee)}

/-- What is shown of a function. -/
theorem routine_of_function (h : program.Shows layout outline) {ref : FunctionRef}
    {entry : Function} (hentry : program.functions.get? ref = some entry) :
    ∃ laid shown, layout.routines[ref.index]? = some laid ∧
      outline.routines[ref.index]? = some shown ∧ program.RoutineIs ref entry laid ∧
      Routine.Rel program.StatementIs laid shown := by
  obtain ⟨laid, hlaid, his⟩ := h.functions ref entry hentry
  obtain ⟨hlt, hget⟩ := List.getElem?_eq_some_iff.1 hlaid
  obtain ⟨hlength, hrel⟩ := List.forall₂_iff_get.1 h.statements.routines
  refine ⟨laid, outline.routines[ref.index], hlaid, List.getElem?_eq_getElem _, his, ?_⟩
  rw [← hget]
  exact hrel _ hlt (hlength ▸ hlt)

/-- The words of the header of a function. -/
theorem headerWords_eq (h : program.Shows layout outline) {ref : FunctionRef} {entry : Function}
    (hentry : program.functions.get? ref = some entry) {shown : Routine (Statement Callee)}
    (hshown : outline.routines[ref.index]? = some shown) :
    entry.entry.isSome = !shown.blocks.isEmpty ∧
      program.headerWords entry = .ok ((shown.map Statement.written).headerWords.map Word.text) := by
  obtain ⟨laid, shown', -, hshown', his, hrel⟩ := h.routine_of_function hentry
  obtain rfl := Option.some.inj (hshown.symm.trans hshown')
  have hentered : entry.entry.isSome = !shown.blocks.isEmpty := by
    have hlengths := his.labels.length_eq.trans hrel.blocks.length_eq
    have hiff := h.isSome_entry hentry
    rw [Bool.eq_iff_iff, hiff, ← List.length_pos_iff, hlengths]
    simp [List.length_pos_iff]
  refine ⟨hentered, ?_⟩
  obtain ⟨signature, hsignature, hresult, hparams, hvariadic⟩ := his.type.signature?_eq
  -- a function is written as defined when it has a block
  have hdefined : (if entry.entry.isSome then "def" else "dec") =
      if shown.blocks.isEmpty then "dec" else "def" := by
    rw [hentered]
    cases shown.blocks.isEmpty <;> rfl
  rw [hrel.prototype] at hresult hparams hvariadic
  simp only [headerWords, hsignature, hresult, paramWords_eq hparams, bind, Except.bind, pure,
    Except.pure, hdefined, his.name, his.params, hrel.params, hrel.prototype, hvariadic,
    Routine.headerWords, Routine.map, Routine.named, List.map_append, List.isEmpty_map]
  have hdots : (if shown.prototype.variadic then ["?"] else []) =
      (if shown.prototype.variadic then [Word.bare "?"] else []).map Word.text := by
    split <;> rfl
  rw [hdots]
  rfl

/-- The lines of a function. -/
theorem functionLines_eq (h : program.Shows layout outline) {ref : FunctionRef} {entry : Function}
    (hentry : program.functions.get? ref = some entry) {shown : Routine (Statement Callee)}
    (hshown : outline.routines[ref.index]? = some shown) :
    program.functionLines ref = .ok ((shown.map Statement.written).lines.map TextLine.text) := by
  obtain ⟨laid, shown', -, hshown', his, hrel⟩ := h.routine_of_function hentry
  obtain rfl := Option.some.inj (hshown.symm.trans hshown')
  obtain ⟨hentered, hheader⟩ := h.headerWords_eq hentry hshown
  have hblocks : (shown.map Statement.written).blocks.isEmpty = shown.blocks.isEmpty := by
    rw [Routine.map, List.isEmpty_map]
  have hnone : entry.entry.isNone = shown.blocks.isEmpty := by
    rw [← Bool.not_inj_iff, Option.not_isNone, hentered]
  simp only [functionLines, show program.function ref = .ok entry from found_eq_ok.2 hentry,
    hheader, hnone, bodyLines_eq his.labels hrel.blocks, bind, Except.bind, pure, Except.pure,
    Routine.lines, hblocks, List.map_cons, text_false]
  cases shown.blocks.isEmpty with
  | true => rfl
  | false =>
    simp only [Bool.false_eq_true, if_false, List.map_append, Routine.map, List.map_cons,
      List.map_nil, text_false]
    rfl

/-- The line of a global. -/
theorem globalText_eq (h : program.Shows layout outline) {ref : GlobalRef} {entry : Global}
    (hentry : program.globals.get? ref = some entry) {name : String} {literal : Literal}
    (hbinding : outline.globals[ref.index]? = some (name, literal)) :
    program.globalText ref = .ok (Outline.globalLine name literal).text := by
  obtain ⟨binding, hbinding', his⟩ := h.globals ref entry hentry
  rw [h.statements.globals, hbinding] at hbinding'
  obtain rfl := Option.some.inj hbinding'
  have hconstant : program.constantWords entry.initial =
      .ok (literal.words.map Word.text) := by
    simp only [constantWords, his.type, his.literal, bind, Except.bind, pure, Except.pure,
      Literal.words, List.map_cons, List.map_nil, Literal.text_word]
    rfl
  simp only [globalText, show program.global ref = .ok entry from found_eq_ok.2 hentry,
    hconstant, his.name, bind, Except.bind, pure, Except.pure, Outline.globalLine, text_false,
    List.map_cons]
  rfl

/-- The references of the functions, one for each that is shown. -/
theorem functionRefs_forall₂ (h : program.Shows layout outline) :
    List.Forall₂ (fun ref shown => program.functionLines ref =
      .ok ((Routine.map Statement.written shown).lines.map TextLine.text)) program.functionRefs
      outline.routines := by
  have hlength : program.functions.entries.size = outline.routines.length :=
    h.functionCount.trans h.statements.routines.length_eq
  refine List.forall₂_iff_get.2 ⟨by simpa [functionRefs] using hlength, fun index hleft hright => ?_⟩
  have hlt : index < program.functions.entries.size := by simpa [functionRefs] using hleft
  have hentry : program.functions.get? ⟨index⟩ = some program.functions.entries[index] := by
    rw [Arena.get?, Array.getElem?_eq_getElem hlt]
  have hself : program.functionRefs.get ⟨index, hleft⟩ = ⟨index⟩ := by
    obtain ⟨laid, -, -, -, his, -⟩ := h.routine_of_function hentry
    simpa [functionRefs] using his.self
  rw [hself]
  exact h.functionLines_eq hentry (List.getElem?_eq_getElem hright)

/-- The references of the globals, one for each that is shown. -/
theorem globalRefs_forall₂ (h : program.Shows layout outline) :
    List.Forall₂ (fun ref binding => program.globalText ref =
      .ok (Outline.globalLine binding.1 binding.2).text) program.globalRefs outline.globals := by
  have hlength : program.globals.entries.size = outline.globals.length :=
    h.globalCount.trans (by rw [h.statements.globals])
  refine List.forall₂_iff_get.2 ⟨by simpa [globalRefs] using hlength, fun index hleft hright => ?_⟩
  have hlt : index < program.globals.entries.size := by simpa [globalRefs] using hleft
  have hentry : program.globals.get? ⟨index⟩ = some program.globals.entries[index] := by
    rw [Arena.get?, Array.getElem?_eq_getElem hlt]
  have hself : program.globalRefs.get ⟨index, hleft⟩ = ⟨index⟩ := by
    obtain ⟨binding, -, his⟩ := h.globals _ _ hentry
    simpa [globalRefs] using his.self
  rw [hself]
  exact h.globalText_eq hentry (List.getElem?_eq_getElem hright)

/-- The lines of a program are those of the outline that shows it. -/
theorem lines_eq (h : program.Shows layout outline) :
    program.lines = .ok ((outline.map Statement.written).lines.map TextLine.text) := by
  have hglobals : program.globalRefs.mapM program.globalText = .ok (outline.globals.map
      fun binding => (Outline.globalLine binding.1 binding.2).text) :=
    mapM_of_forall₂ (List.forall₂_map_right_iff.2 h.globalRefs_forall₂)
  have hfunctions : program.functionRefs.mapM program.functionLines = .ok (outline.routines.map
      fun shown => (Routine.map Statement.written shown).lines.map TextLine.text) :=
    mapM_of_forall₂ (List.forall₂_map_right_iff.2 h.functionRefs_forall₂)
  simp only [lines, hglobals, hfunctions, bind, Except.bind, pure, Except.pure, Outline.lines,
    Outline.map, List.map_append, List.map_map, List.map_flatten]
  rfl

/-- **The text of a program** is that of the outline that shows it. -/
theorem text_eq (h : program.Shows layout outline) :
    program.text = .ok (outline.map Statement.written).text := by
  rw [text, h.lines_eq, Outline.text]
  simp only [bind, Except.bind, pure, Except.pure, List.map_map]
  rfl

end Shows

end Program

end ChainIR
