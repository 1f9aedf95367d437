import Mathlib
import ChainIR.Proofs.Handles
import ChainIR.Proofs.Reading.Derivation
import ChainIR.Proofs.Reading.Run

/-! # Operands are older than their instructions

The types and the words of values and of instructions are found by going from an instruction to
its operands and from the result of an instruction to the instruction. In a grounded program this
goes to an older instruction every time that it goes on to an instruction, so it ends after as many
steps as the instruction has others in front of it, and finds an entry behind every handle on its
way (`Program.Grounded.exists_resultType`, `Program.Grounded.exists_instructionWords`). Reading
keeps a program grounded as requests with handles of the program do, so all programs that come about
in this way (`Program.Homegrown`) have acyclic operands (`Program.Homegrown.operandsDescend`). -/

namespace ChainIR

open Program

/-! ## Reading keeps programs grounded -/

namespace OperandTree

variable {program after : Program}

/-- Reading a value makes one of a type that the program knows. -/
theorem Denotes.grounded {operand : OperandTree} {value : ValueRef} {type : TypeRef}
    (h : operand.Denotes program value type after) (hinterned : program.Interned)
    (hgrounded : program.Grounded) : after.Grounded ∧ after.Knows (.value value) := by
  -- the type is found by its name, or it is the one of a global
  have htyped {name : String} {ref : TypeRef} {typed : Program}
      (hrun : Edit.typeByName name program = .ok (.ok (some ref), typed)) :
      typed.Grounded ∧ typed.Knows (.type ref) := by
    obtain ⟨hadds, htyped, hname⟩ := (Edit.typeByName_yields hinterned name).of_eq_ok hrun
    exact ⟨hgrounded.addTypes hadds htyped, knows_of_typeName (hname ref rfl)⟩
  cases h with
  | register htype hvalue =>
    obtain ⟨hbetween, hknown⟩ := htyped htype
    exact hbetween.addValue (by simpa [Value.handles] using hknown) hvalue
  | @global name ref entry _ _ hbound hentry hvalue =>
    have hknown := hgrounded.globals ref entry hentry
    exact hgrounded.addValue (by simpa [Value.handles] using hknown) hvalue
  | constant htype hliteral hvalue =>
    obtain ⟨hbetween, hknown⟩ := htyped htype
    obtain ⟨name, -, hparsed⟩ := query_bind_eq_ok.1 hliteral
    obtain ⟨rfl, -⟩ := Constant.type_of_ofText (Except.ok.inj hparsed)
    exact hbetween.addValue (by simpa [Value.handles] using hknown) hvalue

/-- Reading values in a row makes each of them, and those in front stay known. -/
theorem DenotesAll.grounded {operands : List OperandTree} {values : List ValueRef}
    {types : List TypeRef} (h : DenotesAll program operands values types after)
    (hinterned : program.Interned) (hgrounded : program.Grounded) :
    after.Grounded ∧ ∀ value ∈ values, after.Knows (.value value) := by
  induction h with
  | nil program => exact ⟨hgrounded, by simp⟩
  | cons hfirst hrest ih =>
    obtain ⟨hbetween, -, -⟩ := hfirst.grows hinterned
    obtain ⟨hmade, hknown⟩ := hfirst.grounded hinterned hgrounded
    obtain ⟨hafter, hothers⟩ := ih hbetween hmade
    obtain ⟨-, hgrows, -⟩ := hrest.grows hbetween
    refine ⟨hafter, fun value hmem => ?_⟩
    rcases List.mem_cons.1 hmem with rfl | hmem
    · exact hgrows.knows _ hknown
    · exact hothers value hmem

end OperandTree

/-- What an instruction with a result refers to is known once its operands have been read. -/
theorem ProducerTree.Denotes.grounded {producer : ProducerTree} {operation : Operation}
    {program after : Program} (h : producer.Denotes program operation after)
    (hinterned : program.Interned) (hgrounded : program.Grounded) :
    after.Grounded ∧ ∀ handle ∈ operation.handles, after.Knows handle := by
  cases h with
  | call harguments hcallee =>
    obtain ⟨hafter, hvalues⟩ := harguments.grounded hinterned hgrounded
    obtain ⟨entry, signature, hentry, -⟩ := takes_of_resolve? hcallee
    refine ⟨hafter, fun handle hmem => ?_⟩
    rcases List.mem_cons.1 hmem with rfl | hmem
    · exact Option.isSome_of_mem hentry
    · obtain ⟨value, hvalue, rfl⟩ := List.mem_map.1 hmem
      exact hvalues value hvalue
  | @alloc keyword type ref _ htype =>
    obtain ⟨hadds, hafter, hname⟩ := (Edit.typeByName_yields hinterned type.value).of_eq_ok htype
    refine ⟨hgrounded.addTypes hadds hafter, ?_⟩
    simpa [Operation.handles] using knows_of_typeName (hname ref rfl)
  | load hpointer =>
    obtain ⟨hafter, hknown⟩ := hpointer.grounded hinterned hgrounded
    exact ⟨hafter, by simpa [Operation.handles, Operation.operands] using hknown⟩

/-- What the instruction of a line refers to is known once its operands have been read. -/
theorem LineTree.Denotes.grounded {line : LineTree} {operation : Operation}
    {program after : Program} (h : line.Denotes program operation after)
    (hinterned : program.Interned) (hgrounded : program.Grounded) :
    after.Grounded ∧ ∀ handle ∈ operation.handles, after.Knows handle := by
  cases h with
  | @setResult name producer made inner value operands created _ hproducer hinner hvalue =>
    obtain ⟨hoperands, hhandles⟩ := hproducer.grounded hinterned hgrounded
    -- the one form that makes a second instruction, the value of whose result it sets
    have hcreated := hoperands.addInstruction hhandles hinner
    obtain ⟨-, hentry⟩ := (Edit.addInstruction_yields operands made).of_eq_ok hinner
    obtain ⟨-, hadded⟩ := (Edit.resultValue_yields hentry).of_eq_ok hvalue
    refine ⟨hcreated.resultValue hvalue, ?_⟩
    have hknown : after.Knows (.value value) := Option.isSome_of_mem (hadded rfl)
    simpa [Operation.handles, Operation.operands] using hknown
  | setValue hoperand | retValue hoperand | branch hoperand =>
    obtain ⟨hafter, hknown⟩ := hoperand.grounded hinterned hgrounded
    exact ⟨hafter, by simpa [Operation.handles, Operation.operands] using hknown⟩
  | ret | jump => exact ⟨hgrounded, by simp [Operation.handles, Operation.operands]⟩
  | store htarget hoperand =>
    obtain ⟨hpointed, hpointer⟩ := htarget.grounded hinterned hgrounded
    obtain ⟨hbetween, -, -⟩ := htarget.grows hinterned
    obtain ⟨-, hgrows, -⟩ := hoperand.grows hbetween
    obtain ⟨hafter, hvalue⟩ := hoperand.grounded hbetween hpointed
    have hstays := hgrows.knows _ hpointer
    exact ⟨hafter, by simpa [Operation.handles, Operation.operands] using ⟨hstays, hvalue⟩⟩
  | produce hproducer => exact hproducer.grounded hinterned hgrounded

namespace LineReader

variable {state : LineState}

/-- The instruction of a line is created from what has been read in front of it. -/
theorem instructionLine_grounded (hreachable : state.program.Reachable)
    (h : state.program.Grounded) :
    Step.OnSuccess instructionLine state fun _ after => after.program.Grounded := by
  intro ref after hrun
  have hinterned := hreachable.requested.interned
  obtain ⟨-, line, operation, operands, -, hdenotes, hadded⟩ :=
    instructionLine_denotes hinterned ref after hrun
  obtain ⟨hgrounded, hknown⟩ := hdenotes.grounded hinterned h
  exact hgrounded.addInstruction hknown hadded

/-- A line that is accepted keeps the program grounded. -/
theorem sourceLine_grounded (position : Position) (hreachable : state.program.Reachable)
    (h : state.program.Grounded) :
    Step.OnSuccess (sourceLine position) state fun _ after => after.program.Grounded :=
  sourceLine_keeps (fun _ _ hthere hbefore hafter => hafter.grounded hthere hbefore)
    (fun _ hthere hbefore => instructionLine_grounded hthere hbefore) position hreachable h

end LineReader

/-- An accepted source gives a grounded program. -/
theorem Reading.grounded_of_ok {source : Source} {program : Program}
    (h : (ofSource source).result = .ok program) : program.Grounded := by
  obtain ⟨final, hlines, -, rfl⟩ := result_ofSource_eq_ok.1 h
  let kept (reader : Reader) : Prop := reader.program.Reachable ∧ reader.program.Grounded
  have hinitial : kept {} := by
    change ({} : Reader).program.Reachable ∧ ({} : Reader).program.Grounded
    rw [Reader.program_start]
    exact ⟨.initial, grounded_initial⟩
  suffices hfinal : kept final from hfinal.2
  refine Reader.property_of_readLines (fun hreader hline => ?_) hinitial hlines
  obtain ⟨tokens, -, ⟨-, rfl, -⟩ | ⟨-, position, after, hread, rfl⟩⟩ :=
    Reader.readLine_eq_ok.1 hline
  · exact hreader
  · exact ⟨(LineReader.sourceLine_becomes _ hreader.1 _ _ hread).reachable hreader.1,
      LineReader.sourceLine_grounded _ hreader.1 hreader.2 _ _ hread⟩

/-! ## The ways down end -/

namespace Program

namespace Grounded

variable {program : Program} (h : program.Grounded)

include h

/-- The type of an operand, if results of older instructions have types. -/
theorem exists_operandType {bound : Nat} {operand : ValueRef}
    (hknown : program.Knows (.value operand))
    (hdescending : ∀ inner, program.values.get? operand = some (.result inner) →
      inner.index < bound)
    (hresults : ∀ inner, inner.index < bound → program.Knows (.instruction inner) →
      ∃ type?, (∀ type ∈ type?, program.Knows (.type type)) ∧
        ∀ depth, inner.index < depth → program.resultTypeWithin depth inner = .ok type?) :
    ∃ type?, (∀ type ∈ type?, program.Knows (.type type)) ∧ ∀ depth, bound ≤ depth →
      program.valueTypeWith (program.resultTypeWithin depth) operand = .ok type? := by
  obtain ⟨value, hvalue⟩ := Option.isSome_iff_exists.1 hknown
  have hhandles := h.values operand value hvalue
  have hfound : program.value operand = .ok value := found_eq_ok.2 hvalue
  cases value with
  | register name type =>
    refine ⟨some type, fun _ hmem => ?_, fun _ _ => query_bind_eq_ok.2 ⟨_, hfound, rfl⟩⟩
    exact Option.some.inj hmem ▸ hhandles _ List.mem_cons_self
  | globalPointer name type =>
    refine ⟨some type, fun _ hmem => ?_, fun _ _ => query_bind_eq_ok.2 ⟨_, hfound, rfl⟩⟩
    exact Option.some.inj hmem ▸ hhandles _ List.mem_cons_self
  | constant constant =>
    refine ⟨some constant.type, fun _ hmem => ?_, fun _ _ => query_bind_eq_ok.2 ⟨_, hfound, rfl⟩⟩
    exact Option.some.inj hmem ▸ hhandles _ List.mem_cons_self
  | global ref =>
    obtain ⟨entry, hentry⟩ := Option.isSome_iff_exists.1 (hhandles _ List.mem_cons_self)
    refine ⟨some entry.initial.type, fun _ hmem => ?_, fun depth _ => ?_⟩
    · exact Option.some.inj hmem ▸ h.globals ref entry hentry
    · exact query_bind_eq_ok.2 ⟨_, hfound, query_bind_eq_ok.2 ⟨entry, found_eq_ok.2 hentry, rfl⟩⟩
  | result inner =>
    -- the one value whose type is asked of an instruction, a smaller one
    have hlt := hdescending inner hvalue
    obtain ⟨type?, htype, hresult⟩ := hresults inner hlt (hhandles _ List.mem_cons_self)
    exact ⟨type?, htype, fun depth hdepth =>
      query_bind_eq_ok.2 ⟨_, hfound, hresult depth (by omega)⟩⟩

/-- The words of an operand, if older instructions have words. -/
theorem exists_operandWords {bound : Nat} {operand : ValueRef}
    (hknown : program.Knows (.value operand))
    (hdescending : ∀ inner, program.values.get? operand = some (.result inner) →
      inner.index < bound)
    (hinstructions : ∀ inner, inner.index < bound → program.Knows (.instruction inner) →
      ∃ words, ∀ depth, inner.index < depth →
        program.instructionWordsWithin depth inner = .ok words) :
    ∃ words, ∀ depth, bound ≤ depth →
      program.valueWordsWith (program.instructionWordsWithin depth) operand = .ok words := by
  obtain ⟨value, hvalue⟩ := Option.isSome_iff_exists.1 hknown
  have hhandles := h.values operand value hvalue
  have hfound : program.value operand = .ok value := found_eq_ok.2 hvalue
  cases value with
  | register name type =>
    obtain ⟨typeName, htype⟩ := exists_typeName_of_knows (hhandles _ List.mem_cons_self)
    exact ⟨_, fun _ _ => query_bind_eq_ok.2 ⟨_, hfound, query_bind_eq_ok.2 ⟨typeName, htype, rfl⟩⟩⟩
  | globalPointer name type => exact ⟨_, fun _ _ => query_bind_eq_ok.2 ⟨_, hfound, rfl⟩⟩
  | constant constant =>
    obtain ⟨typeName, htype⟩ := exists_typeName_of_knows (hhandles _ List.mem_cons_self)
    exact ⟨_, fun _ _ => query_bind_eq_ok.2 ⟨_, hfound, query_bind_eq_ok.2 ⟨typeName, htype, rfl⟩⟩⟩
  | global ref =>
    obtain ⟨entry, hentry⟩ := Option.isSome_iff_exists.1 (hhandles _ List.mem_cons_self)
    exact ⟨_, fun _ _ => query_bind_eq_ok.2
      ⟨_, hfound, query_bind_eq_ok.2 ⟨entry, found_eq_ok.2 hentry, rfl⟩⟩⟩
  | result inner =>
    -- the one value that is written as an instruction, a smaller one
    have hlt := hdescending inner hvalue
    obtain ⟨words, hwords⟩ := hinstructions inner hlt (hhandles _ List.mem_cons_self)
    exact ⟨words, fun depth hdepth =>
      query_bind_eq_ok.2 ⟨_, hfound, hwords depth (by omega)⟩⟩

/-- One step more gives the words of an instruction, once the words of its operands are at hand. -/
theorem exists_words_of_operands {ref : InstructionRef} {entry : Instruction}
    (hentry : program.instructions.get? ref = some entry) {wordsOf : ValueRef → List String}
    (hwords : ∀ operand ∈ entry.operation.operands, ∀ depth, ref.index ≤ depth →
      program.valueWordsWith (program.instructionWordsWithin depth) operand =
        .ok (wordsOf operand)) :
    ∃ words, ∀ depth, ref.index ≤ depth →
      program.instructionWordsWithin (depth + 1) ref = .ok words := by
  have hhandles := h.operations ref entry hentry
  have hfound : program.instruction ref = .ok entry := found_eq_ok.2 hentry
  -- most operations write fixed words around those of their one operand
  have hsingle {operand : ValueRef} (words : List String → List String)
      (hmem : operand ∈ entry.operation.operands) : ∀ depth, ref.index ≤ depth →
      (do return words (← program.valueWordsWith (program.instructionWordsWithin depth) operand)) =
        (.ok (words (wordsOf operand)) : Except Fault (List String)) :=
    fun depth hdepth => query_bind_eq_ok.2 ⟨_, hwords operand hmem depth hdepth, rfl⟩
  cases hoperation : entry.operation with
  | call callee arguments =>
    rw [hoperation] at hhandles hwords
    obtain ⟨function, hfunction⟩ := Option.isSome_iff_exists.1 (hhandles _ List.mem_cons_self)
    refine ⟨["call", function.name] ++ (arguments.map wordsOf).flatten, fun depth hdepth =>
      query_bind_eq_ok.2 ⟨entry, hfound, ?_⟩⟩
    have hargs := mapM_of_forall₂ (List.forall₂_map_right_iff.2 (List.forall₂_same.2
      fun operand hmem => hwords operand hmem depth hdepth))
    rw [hoperation]
    exact query_bind_eq_ok.2 ⟨function, found_eq_ok.2 hfunction, query_bind_eq_ok.2 ⟨_, hargs, rfl⟩⟩
  | ret value =>
    cases value with
    | none =>
      refine ⟨["ret"], fun depth hdepth => query_bind_eq_ok.2 ⟨entry, hfound, ?_⟩⟩
      rw [hoperation]
      rfl
    | some operand =>
      refine ⟨"ret" :: wordsOf operand, fun depth hdepth =>
        query_bind_eq_ok.2 ⟨entry, hfound, ?_⟩⟩
      rw [hoperation]
      exact hsingle ("ret" :: ·) (by simp [hoperation, Operation.operands]) depth hdepth
  | set name value =>
    refine ⟨("%" ++ name) :: wordsOf value, fun depth hdepth =>
      query_bind_eq_ok.2 ⟨entry, hfound, ?_⟩⟩
    rw [hoperation]
    exact hsingle (("%" ++ name) :: ·) (by simp [hoperation, Operation.operands]) depth hdepth
  | alloc type =>
    rw [hoperation] at hhandles
    obtain ⟨typeName, htype⟩ := exists_typeName_of_knows (hhandles _ List.mem_cons_self)
    refine ⟨["alloc", typeName], fun depth hdepth => query_bind_eq_ok.2 ⟨entry, hfound, ?_⟩⟩
    rw [hoperation]
    exact query_bind_eq_ok.2 ⟨typeName, htype, rfl⟩
  | store pointer value =>
    rw [hoperation] at hwords
    refine ⟨"store" :: (wordsOf pointer ++ wordsOf value), fun depth hdepth =>
      query_bind_eq_ok.2 ⟨entry, hfound, ?_⟩⟩
    rw [hoperation]
    exact query_bind_eq_ok.2 ⟨_, hwords pointer (by simp [Operation.operands]) depth hdepth,
      query_bind_eq_ok.2 ⟨_, hwords value (by simp [Operation.operands]) depth hdepth, rfl⟩⟩
  | jump target =>
    refine ⟨["jmp", target], fun depth hdepth => query_bind_eq_ok.2 ⟨entry, hfound, ?_⟩⟩
    rw [hoperation]
    rfl
  | branch condition whenTrue whenFalse =>
    refine ⟨"cjmp" :: (wordsOf condition ++ [whenTrue, whenFalse]), fun depth hdepth =>
      query_bind_eq_ok.2 ⟨entry, hfound, ?_⟩⟩
    rw [hoperation]
    exact hsingle (fun words => "cjmp" :: (words ++ [whenTrue, whenFalse]))
      (by simp [hoperation, Operation.operands]) depth hdepth
  | load pointer =>
    refine ⟨"load" :: wordsOf pointer, fun depth hdepth =>
      query_bind_eq_ok.2 ⟨entry, hfound, ?_⟩⟩
    rw [hoperation]
    exact hsingle ("load" :: ·) (by simp [hoperation, Operation.operands]) depth hdepth

/-- The words of an instruction are found after one step for the instruction and one for each older
one at most. -/
theorem exists_instructionWords {ref : InstructionRef}
    (hknown : program.Knows (.instruction ref)) :
    ∃ words, ∀ depth, ref.index < depth → program.instructionWordsWithin depth ref = .ok words := by
  obtain ⟨index⟩ := ref
  induction index using Nat.strong_induction_on with
  | _ index ih =>
    obtain ⟨entry, hentry⟩ := Option.isSome_iff_exists.1 hknown
    have hhandles := h.operations _ entry hentry
    have hoperand : ∀ operand ∈ entry.operation.operands, ∃ words, ∀ depth, index ≤ depth →
        program.valueWordsWith (program.instructionWordsWithin depth) operand = .ok words :=
      fun operand hmem => h.exists_operandWords (hhandles _ (Operation.value_mem_handles hmem))
        (h.descending _ entry hentry operand hmem)
        fun inner hlt hinner => ih inner.index hlt hinner
    choose! wordsOf hwords using hoperand
    obtain ⟨words, hstep⟩ := h.exists_words_of_operands hentry hwords
    refine ⟨words, fun depth hdepth => ?_⟩
    obtain ⟨depth, rfl⟩ := Nat.exists_eq_succ_of_ne_zero (Nat.ne_zero_of_lt hdepth)
    exact hstep depth (Nat.lt_succ_iff.1 hdepth)

end Grounded

end Program

namespace Operation

/-- The operand whose type the result of the instruction has. -/
def passed? : Operation → Option ValueRef
  | .ret value => value
  | .set _ value => some value
  | .load pointer => some pointer
  | _ => none

/-- Whether the instruction is one that never has a result: a store, a jump, a branch, or leaving
the function without a value. -/
def isSilent : Operation → Bool
  | .ret none => true
  | .store _ _ => true
  | .jump _ => true
  | .branch _ _ _ => true
  | _ => false

/-- An instruction calls, allocates, passes the type of an operand on, or never has a result. -/
theorem kinds (operation : Operation) : (∃ callee arguments, operation = .call callee arguments) ∨
    (∃ type, operation = .alloc type) ∨ (∃ operand ∈ operation.operands,
      operation.passed? = some operand) ∨ operation.isSilent := by
  cases operation with
  | call callee arguments => exact .inl ⟨callee, arguments, rfl⟩
  | alloc type => exact .inr (.inl ⟨type, rfl⟩)
  | ret value =>
    cases value with
    | none => exact .inr (.inr (.inr rfl))
    | some operand => exact .inr (.inr (.inl ⟨operand, List.mem_cons_self, rfl⟩))
  | set name operand => exact .inr (.inr (.inl ⟨operand, List.mem_cons_self, rfl⟩))
  | load operand => exact .inr (.inr (.inl ⟨operand, List.mem_cons_self, rfl⟩))
  | store | jump | branch => exact .inr (.inr (.inr rfl))

/-- The operand whose type is passed on is one of the operands. -/
theorem mem_operands_of_passed {operation : Operation} {operand : ValueRef}
    (h : operation.passed? = some operand) : operand ∈ operation.operands := by
  cases operation with
  | ret value =>
    obtain rfl : value = some operand := h
    exact List.mem_cons_self
  | set | load => exact Option.some.inj h ▸ List.mem_cons_self
  | call | alloc | store | jump | branch => exact absurd h (by simp [passed?])

end Operation

namespace Program

variable {program : Program}

section Results

variable {ref : InstructionRef} {entry : Instruction}
  (hentry : program.instructions.get? ref = some entry) (depth : Nat)

include hentry

/-- What passes the type of an operand on. -/
theorem resultTypeWithin_of_passed {operand : ValueRef}
    (h : entry.operation.passed? = some operand) : program.resultTypeWithin (depth + 1) ref =
      program.valueTypeWith (program.resultTypeWithin depth) operand := by
  have hfound : program.instruction ref = .ok entry := found_eq_ok.2 hentry
  rw [resultTypeWithin, hfound]
  cases hoperation : entry.operation with
  | ret value =>
    rw [hoperation] at h
    obtain rfl : value = some operand := h
    simp [hoperation, bind, Except.bind]
  | set | load =>
    rw [hoperation] at h
    obtain rfl := Option.some.inj h
    simp [hoperation, bind, Except.bind]
  | call | alloc | store | jump | branch =>
    rw [hoperation] at h
    exact absurd h (by simp [Operation.passed?])

/-- What never has a result. -/
theorem resultTypeWithin_of_silent (h : entry.operation.isSilent) :
    program.resultTypeWithin (depth + 1) ref = .ok none := by
  have hfound : program.instruction ref = .ok entry := found_eq_ok.2 hentry
  refine query_bind_eq_ok.2 ⟨entry, hfound, ?_⟩
  revert h
  cases entry.operation with
  | ret value =>
    cases value with
    | none => exact fun _ => rfl
    | some operand => exact fun h => absurd h Bool.false_ne_true
  | store | jump | branch => exact fun _ => rfl
  | call | alloc | set | load => exact fun h => absurd h Bool.false_ne_true

/-- What reserves storage. -/
theorem resultTypeWithin_of_alloc {type : TypeRef} (h : entry.operation = .alloc type) :
    program.resultTypeWithin (depth + 1) ref = .ok (some type) := by
  refine query_bind_eq_ok.2 ⟨entry, found_eq_ok.2 hentry, ?_⟩
  rw [h]
  rfl

/-- What calls a function. -/
theorem resultTypeWithin_of_call {callee : FunctionRef} {arguments : List ValueRef}
    (h : entry.operation = .call callee arguments) {function : Function} {signature : Signature}
    (hfunction : program.functions.get? callee = some function)
    (hsignature : program.signature? function.type = .ok (some signature)) :
    program.resultTypeWithin (depth + 1) ref = .ok (some signature.result) := by
  refine query_bind_eq_ok.2 ⟨entry, found_eq_ok.2 hentry, ?_⟩
  rw [h]
  exact query_bind_eq_ok.2 ⟨function, found_eq_ok.2 hfunction,
    query_bind_eq_ok.2 ⟨some signature, hsignature, rfl⟩⟩

end Results

/-- A function returns a type of the program. -/
theorem Reachable.exists_signature (h : program.Reachable) {ref : FunctionRef} {entry : Function}
    (hentry : program.functions.get? ref = some entry) :
    ∃ signature, program.signature? entry.type = .ok (some signature) ∧
      program.Knows (.type signature.result) := by
  obtain ⟨layout, hbuilt⟩ := h.requested.exists_built
  obtain ⟨signature, hsignature⟩ := hbuilt.symbols.signatures ref entry hentry
  obtain ⟨typeName, htype⟩ := signature?_eq_some hsignature
  obtain ⟨tree, -, hshape⟩ := hbuilt.interned.rendered _ _ htype
  refine ⟨signature, hsignature, ?_⟩
  cases tree with
  | function result params variadic => exact knows_of_typeName hshape.2.1
  | void | num | chr | str | array => exact hshape.elim

namespace Grounded

variable (h : program.Grounded) (hreachable : program.Reachable)

include h hreachable

/-- The type of a result is found after one step for the instruction and one for each older one at
most, and it is a type of the program. -/
theorem exists_resultType {ref : InstructionRef} (hknown : program.Knows (.instruction ref)) :
    ∃ type?, (∀ type ∈ type?, program.Knows (.type type)) ∧
      ∀ depth, ref.index < depth → program.resultTypeWithin depth ref = .ok type? := by
  -- induction on the place: all operands that are results stand in front of it
  obtain ⟨index⟩ := ref
  induction index using Nat.strong_induction_on with
  | _ index ih =>
    obtain ⟨entry, hentry⟩ := Option.isSome_iff_exists.1 hknown
    have hhandles := h.operations _ entry hentry
    have hlevel (type? : Option TypeRef) (htype : ∀ type ∈ type?, program.Knows (.type type))
        (hresult : ∀ depth, index ≤ depth →
          program.resultTypeWithin (depth + 1) ⟨index⟩ = .ok type?) :
        ∃ type?, (∀ type ∈ type?, program.Knows (.type type)) ∧ ∀ depth, index < depth →
          program.resultTypeWithin depth ⟨index⟩ = .ok type? := by
      refine ⟨type?, htype, fun depth hdepth => ?_⟩
      obtain ⟨depth, rfl⟩ := Nat.exists_eq_succ_of_ne_zero (by omega : depth ≠ 0)
      exact hresult depth (by omega)
    obtain ⟨callee, arguments, hcall⟩ | ⟨type, halloc⟩ | ⟨operand, hmem, hpassed⟩ | hsilent :=
      entry.operation.kinds
    · have hcallee := hhandles (.function callee) (by rw [hcall]; exact List.mem_cons_self)
      obtain ⟨function, hfunction⟩ := Option.isSome_iff_exists.1 hcallee
      obtain ⟨signature, hsignature, hresult⟩ := hreachable.exists_signature hfunction
      refine hlevel (some signature.result) (fun _ hsome => ?_) fun depth _ =>
        resultTypeWithin_of_call hentry depth hcall hfunction hsignature
      exact Option.some.inj hsome ▸ hresult
    · refine hlevel (some type) (fun _ hsome => ?_) fun depth _ =>
        resultTypeWithin_of_alloc hentry depth halloc
      exact Option.some.inj hsome ▸ hhandles (.type type) (by rw [halloc]; exact List.mem_cons_self)
    · obtain ⟨type?, htype, hoperand⟩ := h.exists_operandType
        (hhandles _ (Operation.value_mem_handles hmem)) (h.descending _ entry hentry operand hmem)
        fun inner hlt hinner => ih inner.index hlt hinner
      refine hlevel type? htype fun depth hdepth => ?_
      rw [resultTypeWithin_of_passed hentry depth hpassed, hoperand depth hdepth]
    · exact hlevel none (by simp) fun depth _ =>
        resultTypeWithin_of_silent hentry depth hsilent

/-- The type of an operand of an instruction does not depend on how deep is looked, as long as it is
deep enough for the instruction. -/
theorem exists_valueType {ref : InstructionRef} {entry : Instruction}
    (hentry : program.instructions.get? ref = some entry) {operand : ValueRef}
    (hmem : operand ∈ entry.operation.operands) :
    ∃ type?, program.valueType operand = .ok type? ∧ ∀ depth, ref.index ≤ depth →
      program.valueTypeWith (program.resultTypeWithin depth) operand = .ok type? := by
  obtain ⟨type?, -, htype⟩ := h.exists_operandType
    (h.operations ref entry hentry _ (Operation.value_mem_handles hmem))
    (h.descending ref entry hentry operand hmem)
    fun inner _ hinner => h.exists_resultType hreachable hinner
  have hlt := Arena.lt_size_of_get? hentry
  exact ⟨type?, htype _ (by rw [operandDepth]; omega), htype⟩

/-- A value without type is the result of an instruction that never has a result, or of one that
passes the type of an operand on that has none. -/
theorem valueType_eq_none_iff {ref : ValueRef} : program.valueType ref = .ok none ↔
    ∃ instruction entry, program.values.get? ref = some (.result instruction) ∧
      program.instructions.get? instruction = some entry ∧
      (entry.operation.isSilent ∨ ∃ operand, entry.operation.passed? = some operand ∧
        program.valueType operand = .ok none) := by
  constructor
  · intro htype
    obtain ⟨value, hvalue, hrest⟩ := query_bind_eq_ok.1 htype
    cases value with
    | register | globalPointer | constant => exact absurd (Except.ok.inj hrest) (by simp)
    | global global =>
      obtain ⟨entry, -, hlast⟩ := query_bind_eq_ok.1 hrest
      exact absurd (Except.ok.inj hlast) (by simp)
    | result instruction =>
      obtain ⟨entry, hfound, -⟩ := query_bind_eq_ok.1 hrest
      have hentry := found_eq_ok.1 hfound
      refine ⟨instruction, entry, found_eq_ok.1 hvalue, hentry, ?_⟩
      -- a value asks with as much fuel as there are instructions, and an operand needs less
      have hresult : program.resultTypeWithin (program.instructions.size + 1) instruction =
        .ok none := hrest
      obtain ⟨callee, arguments, hcall⟩ | ⟨type, halloc⟩ | ⟨operand, hmem, hpassed⟩ | hsilent :=
        entry.operation.kinds
      · have hcallee := h.operations instruction entry hentry (.function callee)
          (by rw [hcall]; exact List.mem_cons_self)
        obtain ⟨function, hfunction⟩ := Option.isSome_iff_exists.1 hcallee
        obtain ⟨signature, hsignature, -⟩ := hreachable.exists_signature hfunction
        rw [resultTypeWithin_of_call hentry _ hcall hfunction hsignature] at hresult
        exact absurd (Except.ok.inj hresult) (by simp)
      · rw [resultTypeWithin_of_alloc hentry _ halloc] at hresult
        exact absurd (Except.ok.inj hresult) (by simp)
      · -- a load or a set passes on what its operand has, whatever fuel is left
        obtain ⟨type?, hoperand, hdeep⟩ := h.exists_valueType hreachable hentry hmem
        rw [resultTypeWithin_of_passed hentry _ hpassed,
          hdeep _ (Arena.lt_size_of_get? hentry).le] at hresult
        exact .inr ⟨operand, hpassed, hoperand.trans hresult⟩
      · exact .inl hsilent
  · rintro ⟨instruction, entry, hvalue, hentry, hsilent | ⟨operand, hpassed, hoperand⟩⟩
    · exact query_bind_eq_ok.2
        ⟨_, found_eq_ok.2 hvalue, resultTypeWithin_of_silent hentry _ hsilent⟩
    · refine query_bind_eq_ok.2 ⟨_, found_eq_ok.2 hvalue, ?_⟩
      obtain ⟨type?, htype, hdeep⟩ :=
        h.exists_valueType hreachable hentry (Operation.mem_operands_of_passed hpassed)
      exact (resultTypeWithin_of_passed hentry _ hpassed).trans
        ((hdeep _ (Arena.lt_size_of_get? hentry).le).trans (htype.symm.trans hoperand))

end Grounded

/-! ## Programs with handles of their own -/

/-- **Programs that come about with handles of their own**: the initial one, what accepted sources
give, and whatever successful requests make of them that come with handles of the program. -/
inductive Homegrown : Program → Prop
  /-- The initial program. -/
  | initial : Homegrown initial
  /-- An accepted source. -/
  | read {source : Source} {program : Program}
    (accepted : (Reading.ofSource source).result = .ok program) : Homegrown program
  /-- A successful request with handles of the program. -/
  | request {program after : Program} (homegrown : Homegrown program) (request : Request)
    (known : request.KnownTo program) (success : request.run program = .ok ((), after)) :
    Homegrown after

/-- A program made of its own handles is reachable. -/
theorem Homegrown.reachable (h : program.Homegrown) : program.Reachable := by
  induction h with
  | initial => exact .initial
  | read accepted => exact .read accepted
  | request _ request _ success ih => exact .request ih request success

/-- Its operands are older than the instructions that use them. -/
theorem Homegrown.grounded (h : program.Homegrown) : program.Grounded := by
  induction h with
  | initial => exact grounded_initial
  | read accepted => exact Reading.grounded_of_ok accepted
  | request homegrown request known success ih =>
    exact request.grounded_of_run homegrown.reachable ih known success

/-- The ways from an instruction to its operands end, and all that is met on them is there. -/
structure OperandsDescend (program : Program) : Prop where
  /-- An instruction whose result is an operand is older than the one that has the operand. -/
  descending : ∀ ref entry, program.instructions.get? ref = some entry →
    ∀ operand ∈ entry.operation.operands, ∀ inner,
      program.values.get? operand = some (.result inner) → inner.index < ref.index
  /-- The type of a result is found within one step for each instruction up to this one. -/
  resultTypes : ∀ ref entry, program.instructions.get? ref = some entry →
    ∃ type?, (∀ type ∈ type?, program.Knows (.type type)) ∧
      ∀ depth, ref.index < depth → program.resultTypeWithin depth ref = .ok type?
  /-- So are the words of an instruction, which make up its text. -/
  instructionTexts : ∀ ref entry, program.instructions.get? ref = some entry →
    ∃ words, program.instructionText ref = .ok (spaced words) ∧
      ∀ depth, ref.index < depth → program.instructionWordsWithin depth ref = .ok words
  /-- Every value has a type of the program or none. -/
  valueTypes : ∀ ref value, program.values.get? ref = some value →
    ∃ type?, program.valueType ref = .ok type? ∧ ∀ type ∈ type?, program.Knows (.type type)
  /-- Every value has a text. -/
  valueTexts : ∀ ref value, program.values.get? ref = some value →
    ∃ text, program.valueText ref = .ok text
  /-- A value has no type exactly if it is the result of an instruction that never has one, or of
  one that passes the type of an operand on, and the operand has none. -/
  typeless : ∀ ref, program.valueType ref = .ok none ↔
    ∃ instruction entry, program.values.get? ref = some (.result instruction) ∧
      program.instructions.get? instruction = some entry ∧
      (entry.operation.isSilent ∨ ∃ operand, entry.operation.passed? = some operand ∧
        program.valueType operand = .ok none)

/-- **Operands are acyclic.** In a program that has come about with handles of its own, an operand
that is the result of an instruction is the result of an older one, so types and texts are always
found. -/
theorem Homegrown.operandsDescend (h : program.Homegrown) : program.OperandsDescend := by
  have hgrounded := h.grounded
  have hreachable := h.reachable
  -- no value is nested deeper than there are instructions
  have hbound : ∀ {inner : InstructionRef}, program.Knows (.instruction inner) →
      inner.index < program.operandDepth := by
    intro inner hknown
    have hlt := (Arena.get?_isSome_iff program.instructions inner).1 hknown
    rw [operandDepth]
    omega
  refine ⟨hgrounded.descending, fun ref entry hentry => ?_, fun ref entry hentry => ?_,
    fun ref value hvalue => ?_, fun ref value hvalue => ?_, fun ref => ?_⟩
  · exact hgrounded.exists_resultType hreachable (Option.isSome_of_mem hentry)
  · have hknown : program.Knows (.instruction ref) := Option.isSome_of_mem hentry
    obtain ⟨words, hwords⟩ := hgrounded.exists_instructionWords hknown
    exact ⟨words, query_bind_eq_ok.2 ⟨words, hwords _ (hbound hknown), rfl⟩, hwords⟩
  · have hknown : program.Knows (.value ref) := Option.isSome_of_mem hvalue
    obtain ⟨type?, htype, hdeep⟩ := hgrounded.exists_operandType hknown
      (fun inner hinner => hbound (hgrounded.values ref _ hinner _ List.mem_cons_self))
      fun inner _ hinner => hgrounded.exists_resultType hreachable hinner
    exact ⟨type?, hdeep _ le_rfl, htype⟩
  · have hknown : program.Knows (.value ref) := Option.isSome_of_mem hvalue
    obtain ⟨words, hdeep⟩ := hgrounded.exists_operandWords hknown
      (fun inner hinner => hbound (hgrounded.values ref _ hinner _ List.mem_cons_self))
      fun inner _ hinner => hgrounded.exists_instructionWords hinner
    exact ⟨spaced words, query_bind_eq_ok.2 ⟨words, hdeep _ le_rfl, rfl⟩⟩
  · exact hgrounded.valueType_eq_none_iff hreachable

/-- A store takes the result of an allocation twice, and its own result, which has no type, is asked
for only once the store is in a chain. -/
theorem operandsDescend_shared : ∃ program : Program, program.Homegrown ∧
    program.OperandsDescend ∧ program.values.get? ⟨1⟩ = some (.result ⟨1⟩) ∧
    (program.instructions.get? ⟨1⟩).map Instruction.operation = some (.store ⟨0⟩ ⟨0⟩) ∧
    program.valueType ⟨0⟩ = .ok (some ⟨1⟩) ∧ program.valueType ⟨1⟩ = .ok none ∧
    program.valueText ⟨1⟩ = .ok "store alloc num alloc num" := by
  -- an allocation is stored into itself, so both operands are one value
  have hruns : Request.KnownTo (.addInstruction (.alloc ⟨1⟩)) initial ∧
      Step.leadsTo (Request.addInstruction (.alloc ⟨1⟩)).run initial fun made =>
        Request.KnownTo (.getResult ⟨0⟩) made &&
        Step.leadsTo (Request.getResult ⟨0⟩).run made fun valued =>
          Request.KnownTo (.appendNew (.start ⟨0⟩ "a") (.store ⟨0⟩ ⟨0⟩)) valued &&
          Step.leadsTo (Request.appendNew (.start ⟨0⟩ "a") (.store ⟨0⟩ ⟨0⟩)).run valued
            fun stored => Request.KnownTo (.getResult ⟨1⟩) stored &&
              Step.leadsTo (Request.getResult ⟨1⟩).run stored fun program =>
                program.values.get? ⟨1⟩ = some (.result ⟨1⟩) &&
                (program.instructions.get? ⟨1⟩).map Instruction.operation =
                  some (.store ⟨0⟩ ⟨0⟩) &&
                program.valueType ⟨0⟩ = .ok (some ⟨1⟩) && program.valueType ⟨1⟩ = .ok none &&
                program.valueText ⟨1⟩ = .ok "store alloc num alloc num" := by
    decide +kernel
  obtain ⟨hknown, hrun⟩ := hruns
  obtain ⟨⟨⟩, made, hmade, hrest⟩ := Step.exists_of_leadsTo hrun
  obtain ⟨hknown₂, hrun₂⟩ := (Bool.and_eq_true _ _).mp hrest
  obtain ⟨⟨⟩, valued, hvalued, hrest⟩ := Step.exists_of_leadsTo hrun₂
  obtain ⟨hknown₃, hrun₃⟩ := (Bool.and_eq_true _ _).mp hrest
  obtain ⟨⟨⟩, stored, hstored, hrest⟩ := Step.exists_of_leadsTo hrun₃
  obtain ⟨hknown₄, hrun₄⟩ := (Bool.and_eq_true _ _).mp hrest
  obtain ⟨⟨⟩, program, hprogram, htest⟩ := Step.exists_of_leadsTo hrun₄
  simp only [Bool.and_eq_true, decide_eq_true_eq] at hknown₂ hknown₃ hknown₄ htest
  obtain ⟨⟨⟨⟨hvalue, hoperation⟩, htyped⟩, htypeless⟩, htext⟩ := htest
  have hhome : program.Homegrown := .request (.request (.request (.request .initial _ hknown hmade)
    _ hknown₂ hvalued) _ hknown₃ hstored) _ hknown₄ hprogram
  exact ⟨program, hhome, hhome.operandsDescend, hvalue, hoperation, htyped, htypeless, htext⟩

end Program

end ChainIR
