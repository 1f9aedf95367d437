import Mathlib
import ChainIR.Proofs.Built

/-! # Arenas as reading leaves them

Requests may build values and instructions that no source can say. Those that reading builds are
of fewer kinds (`Program.AsRead`): a value is a register, a literal, a pointer to a global with
the type of the global, or the result of a call, an allocation or a load that is in no chain; a
result is bound to a register and used nowhere else; and a call has a callee that takes its
arguments. Every edit that reading makes is a request, and keeps this up (`Program.Read`).

* `Program.HasOperand`: operands that stand for themselves.
* `Program.AdmitsValue`, `Program.AdmitsOperation`: what a value and an instruction may be. -/

namespace ChainIR

/-! ## What values and instructions may be -/

/-- Arenas that find entries at the same places are of one size. -/
theorem Arena.size_congr {κ : Type} {tag : κ} {α : Type} {arena other : Arena tag α}
    (h : ∀ ref, (other.get? ref).isSome = (arena.get? ref).isSome) : other.size = arena.size := by
  have hlt : ∀ index, index < other.size ↔ index < arena.size := by
    intro index
    rw [← Arena.get?_isSome_iff other ⟨index⟩, h, Arena.get?_isSome_iff arena]
  have hother := hlt other.size
  have harena := hlt arena.size
  omega

/-- The type of an operand that stands for itself: a register, a pointer to a global or a
literal. -/
def Value.ownType? : Value → Option TypeRef
  | .register _ type => some type
  | .globalPointer _ type => some type
  | .constant typed => some typed.type
  | .global _ => none
  | .result _ => none

namespace Operation

/-- The operands of an instruction. -/
def operands : Operation → List ValueRef
  | .call _ arguments => arguments
  | .ret value => value.toList
  | .set _ value => [value]
  | .alloc _ => []
  | .store pointer value => [pointer, value]
  | .jump _ => []
  | .branch condition _ _ => [condition]
  | .load pointer => [pointer]

/-- Whether a register can be set to the instruction: to a call, an allocation or a load. -/
def isProducer : Operation → Bool
  | .call _ _ => true
  | .alloc _ => true
  | .load _ => true
  | _ => false

end Operation

namespace Program

/-- A reference to an operand that stands for itself, of the given type. -/
def HasOperand (program : Program) (ref : ValueRef) (type : TypeRef) : Prop :=
  ∃ value, program.values.get? ref = some value ∧ value.ownType? = some type

/-- A function takes arguments of the given types: exactly these, or these and others in front of
which they stand. -/
def Takes (program : Program) (callee : FunctionRef) (arguments : List TypeRef) : Prop :=
  ∃ entry signature, program.functions.get? callee = some entry ∧
    program.signature? entry.type = .ok (some signature) ∧
    (signature.takesExactly arguments ∨ signature.takesVariadically arguments)

/-- What a value may be in a program that has been read. -/
def AdmitsValue (program : Program) : Value → Prop
  | .register _ _ => True
  | .globalPointer name type => ∃ global entry, program.globalNamed? name = some global ∧
      program.globals.get? global = some entry ∧ entry.initial.type = type
  | .constant _ => True
  | .global _ => False
  | .result ref => ∃ entry, program.instructions.get? ref = some entry ∧ entry.label = none ∧
      entry.operation.isProducer

/-- What an instruction may do in a program that has been read. -/
def AdmitsOperation (program : Program) : Operation → Prop
  | .call callee arguments => ∃ types, List.Forall₂ program.HasOperand arguments types ∧
      program.Takes callee types
  | .set _ value => (∃ type, program.HasOperand value type) ∨
      ∃ ref, program.values.get? value = some (.result ref)
  | operation => ∀ value ∈ operation.operands, ∃ type, program.HasOperand value type

/-- Values and instructions are what they may be in a program that has been read. -/
structure AsRead (program : Program) : Prop where
  /-- The values. -/
  values : ∀ ref value, program.values.get? ref = some value → program.AdmitsValue value
  /-- The instructions. -/
  operations : ∀ ref entry, program.instructions.get? ref = some entry →
    program.AdmitsOperation entry.operation

/-! ## Growing -/

section Mono

variable {program after : Program} (h : program.Extends after)

include h

/-- Function types keep their signatures. -/
theorem Extends.signature? {type : TypeRef} {signature : Signature}
    (hsignature : program.signature? type = .ok (some signature)) :
    after.signature? type = .ok (some signature) := by
  obtain ⟨name, hentry⟩ := signature?_eq_some hsignature
  rw [Program.signature?, show after.type type = .ok _ from found_eq_ok.2 (h.types _ _ hentry)]
  rfl

/-- An operand keeps its type. -/
theorem HasOperand.mono {ref : ValueRef} {type : TypeRef} (his : program.HasOperand ref type) :
    after.HasOperand ref type := by
  obtain ⟨value, hvalue, htype⟩ := his
  exact ⟨value, h.values _ _ hvalue, htype⟩

/-- A function takes the arguments that it took. -/
theorem Takes.mono {callee : FunctionRef} {arguments : List TypeRef}
    (htakes : program.Takes callee arguments) : after.Takes callee arguments := by
  obtain ⟨entry, signature, hentry, hsignature, haccepts⟩ := htakes
  obtain ⟨entry', hentry', -, htype⟩ := h.functions _ _ hentry
  exact ⟨entry', signature, hentry', h.signature? (htype ▸ hsignature), haccepts⟩

/-- An operation that was admitted stays admitted. -/
theorem AdmitsOperation.mono {operation : Operation} (hadmits : program.AdmitsOperation operation) :
    after.AdmitsOperation operation := by
  -- all but calls and bindings have operands that stand for themselves
  have hoperands : (∀ value ∈ operation.operands, ∃ type, program.HasOperand value type) →
      ∀ value ∈ operation.operands, ∃ type, after.HasOperand value type := by
    intro howned value hmem
    obtain ⟨type, htype⟩ := howned value hmem
    exact ⟨type, htype.mono h⟩
  cases operation with
  | call callee arguments =>
    obtain ⟨types, harguments, htakes⟩ := hadmits
    exact ⟨types, harguments.imp fun _ _ his => his.mono h, htakes.mono h⟩
  | set name value =>
    rcases hadmits with ⟨type, htype⟩ | ⟨ref, href⟩
    · exact .inl ⟨type, htype.mono h⟩
    · exact .inr ⟨ref, h.values _ _ href⟩
  | ret | alloc | store | jump | branch | load => exact hoperands hadmits

/-- A value stays what it may be as long as globals are found and what has results stays out of
all chains. -/
theorem AdmitsValue.mono
    (hnamed : ∀ name global, program.globalNamed? name = some global →
      after.globalNamed? name = some global) {value : Value}
    (hfree : ∀ ref entry, value = .result ref → program.instructions.get? ref = some entry →
      ∃ entry', after.instructions.get? ref = some entry' ∧ entry'.label = entry.label)
    (hadmits : program.AdmitsValue value) : after.AdmitsValue value := by
  cases value with
  | register | constant => trivial
  | globalPointer name type =>
    obtain ⟨global, entry, hglobal, hentry, htype⟩ := hadmits
    obtain ⟨entry', hentry', -, hinitial⟩ := h.globals _ _ hentry
    exact ⟨global, entry', hnamed name global hglobal, hentry', by rw [hinitial, htype]⟩
  | global global => exact hadmits
  | result ref =>
    obtain ⟨entry, hentry, hlabel, hproducer⟩ := hadmits
    obtain ⟨entry', hentry', hsame⟩ := hfree ref entry rfl hentry
    obtain ⟨entry'', hentry'', hoperation⟩ := h.instructions _ _ hentry
    obtain rfl := Option.some.inj (hentry'.symm.trans hentry'')
    exact ⟨entry', hentry', hsame.trans hlabel, by rw [hoperation, hproducer]⟩

end Mono

namespace AsRead

variable {program after : Program}

/-- Arenas stay as reading leaves them if what is new in them is as reading makes it. -/
theorem mono (h : program.AsRead) (hextends : program.Extends after)
    (hnamed : ∀ name global, program.globalNamed? name = some global →
      after.globalNamed? name = some global)
    (hfree : ∀ value ref entry, program.values.get? value = some (.result ref) →
      program.instructions.get? ref = some entry →
      ∃ entry', after.instructions.get? ref = some entry' ∧ entry'.label = entry.label)
    (hvalues : ∀ ref value, after.values.get? ref = some value →
      program.values.get? ref = some value ∨ after.AdmitsValue value)
    (hoperations : ∀ ref entry, after.instructions.get? ref = some entry →
      (∃ old, program.instructions.get? ref = some old ∧ entry.operation = old.operation) ∨
        after.AdmitsOperation entry.operation) : after.AsRead where
  values ref value hvalue := by
    rcases hvalues ref value hvalue with hold | hnew
    · refine (h.values ref value hold).mono hextends hnamed fun other entry hresult hentry => ?_
      exact hfree ref other entry (hresult ▸ hold) hentry
    · exact hnew
  operations ref entry hentry := by
    rcases hoperations ref entry hentry with ⟨old, hold, hsame⟩ | hnew
    · rw [hsame]
      exact (h.operations ref old hold).mono hextends
    · exact hnew

/-- Growing by values and instructions as reading makes them. -/
theorem grows (h : program.AsRead) (hgrows : program.Grows after)
    (hvalues : ∀ ref value, after.values.get? ref = some value →
      program.values.get? ref = some value ∨ after.AdmitsValue value)
    (hoperations : ∀ ref entry, after.instructions.get? ref = some entry →
      (∃ old, program.instructions.get? ref = some old ∧ entry.operation = old.operation) ∨
        after.AdmitsOperation entry.operation) : after.AsRead := by
  refine h.mono hgrows.toExtends (fun name global hnamed => ?_) ?_ hvalues hoperations
  · rw [hgrows.globalNamed?, hnamed]
  · intro value ref entry _ hentry
    obtain ⟨result, hresult⟩ := hgrows.instructions ref entry hentry
    exact ⟨_, hresult, rfl⟩

/-- Arenas stay if neither values nor instructions change. -/
theorem congr (h : program.AsRead) (hextends : program.Extends after)
    (hnamed : ∀ name global, program.globalNamed? name = some global →
      after.globalNamed? name = some global)
    (hvalues : after.values = program.values)
    (hinstructions : after.instructions = program.instructions) : after.AsRead := by
  refine h.mono hextends hnamed ?_ (fun ref value hvalue => .inl (hvalues ▸ hvalue)) ?_
  · intro value ref entry _ hentry
    exact ⟨entry, hinstructions ▸ hentry, rfl⟩
  · intro ref entry hentry
    exact .inl ⟨entry, hinstructions ▸ hentry, rfl⟩

/-- An instruction that is only now created has no result yet. -/
theorem no_result_nextRef (h : program.AsRead) (value : ValueRef) :
    program.values.get? value ≠ some (.result program.instructions.nextRef) := by
  intro hvalue
  obtain ⟨entry, hentry, -⟩ := h.values value _ hvalue
  exact absurd (hentry.symm.trans (Arena.get?_nextRef program.instructions)) (by simp)

end AsRead

/-! ## Programs that have been read -/

/-- A program as reading leaves it: requests have built it, and its arenas are as reading makes
them. -/
structure Read (program : Program) : Prop extends program.AsRead where
  /-- Requests have built it. -/
  requested : program.Requested

namespace Read

variable {program after : Program}

/-- One more request. -/
theorem step (h : program.Read) (request : Request) (hrun : request.run program = .ok ((), after))
    (hread : program.Extends after → after.AsRead) : after.Read ∧ program.Extends after :=
  have hextends := h.requested.extends_of_run hrun
  ⟨⟨hread hextends, h.requested.run hrun⟩, hextends⟩

end Read

/-- One program keeps what the other has, is such as reading leaves it, and has no new
instruction. -/
structure Keeps (program after : Program) : Prop where
  /-- Reading leaves such programs. -/
  read : after.Read
  /-- All entries are still what they were. -/
  entries : program.Extends after
  /-- There are no more instructions. -/
  size : after.instructions.size = program.instructions.size

/-- What is kept twice over is kept. -/
theorem Keeps.trans {program after further : Program} (first : program.Keeps after)
    (second : after.Keeps further) : program.Keeps further :=
  ⟨second.read, first.entries.trans second.entries, second.size.trans first.size⟩

/-- One more request that creates no instruction. -/
theorem Read.keeps {program after : Program} (h : program.Read) (request : Request)
    (hrun : request.run program = .ok ((), after))
    (hsize : after.instructions.size = program.instructions.size)
    (hread : program.Extends after → after.AsRead) : program.Keeps after :=
  have hstep := h.step request hrun hread
  ⟨hstep.1, hstep.2, hsize⟩

end Program

/-- Linking creates no instruction. -/
theorem Program.Relinks.size {program after : Program} {label : LabelRef} {ref : InstructionRef}
    (h : program.Relinks label ref after) :
    after.instructions.size = program.instructions.size := by
  refine Arena.size_congr fun other => ?_
  have hsame := congrArg Option.isSome (h.instructions other)
  rwa [Option.isSome_map, Option.isSome_map] at hsame

/-! ## The edits that reading makes -/

namespace Edit

open Program

variable {program after : Program} (h : program.Read)

include h

/-- Asking for a type. -/
theorem read_of_getType (request : TypeRequest) (hrun : request.run program = .ok ((), after)) :
    program.Keeps after := by
  obtain ⟨hadds, -⟩ := TypeRequest.addsTypes_of_run h.requested.interned hrun
  refine h.keeps (.getType request) hrun (by rw [hadds.rest]) fun hextends => ?_
  refine h.toAsRead.congr hextends (fun name global hnamed => ?_) ?_ ?_ <;> rw [hadds.rest]
  exact hnamed

/-- Resolving the name of a type. -/
theorem read_of_typeByName {name : String} {result : Except TypeError (Option TypeRef)}
    (hrun : typeByName name program = .ok (result, after)) : program.Keeps after :=
  read_of_getType h (.ofName name) ((Step.drop_eq_ok fun _ => rfl).2 ⟨result, hrun⟩)

/-- Asking for a function type. -/
theorem read_of_functionType {signature : Signature} {type : TypeRef}
    (hrun : functionType signature program = .ok (type, after)) : program.Keeps after :=
  read_of_getType h (.ofShape (.function signature))
    ((Step.drop_eq_ok fun _ => rfl).2 ⟨type, hrun⟩)

omit h in
/-- The constant of a literal is there already if its type is. -/
theorem constantOf_eq (hinterned : program.Interned) {constant : Constant}
    (htype : program.typeName constant.type = .ok constant.literal.typeName) :
    constantOf constant.literal program = .ok (constant, program) := by
  obtain ⟨type, literal⟩ := constant
  have hfind := hinterned.find?_of_typeName htype
  have hintern : ∀ shape, intern literal.typeName shape program = .ok (type, program) := by
    intro shape
    rw [intern, hfind]
  cases literal with
  | num value => exact Step.bind_of_ok (hintern .num)
  | str text => exact Step.bind_of_ok (hintern .str)

/-- Creating an operand that stands for itself. -/
theorem read_of_addValue {value : Value} {ref : ValueRef} (hvalue : program.AdmitsValue value)
    (htyped : ∀ constant, value = .constant constant →
      program.typeName constant.type = .ok constant.literal.typeName)
    (hresult : ∀ instruction, value ≠ .result instruction)
    (hrun : addValue value program = .ok (ref, after)) :
    after.Read ∧ program.Extends after ∧ after.values.get? ref = some value := by
  have hdrop : ∀ other, addValue other program = .ok (ref, after) →
      (do let _ ← addValue other : Edit Unit) program = .ok ((), after) := by
    intro other hrun
    exact (Step.drop_eq_ok fun _ => rfl).2 ⟨ref, hrun⟩
  -- whatever stands for itself can be requested, a constant by its literal
  have hrequest : ∃ request : Request, request.run program = .ok ((), after) := by
    cases value with
    | register name type => exact ⟨.addRegister name type, hdrop _ hrun⟩
    | globalPointer name type => exact ⟨.addGlobalPointer name type, hdrop _ hrun⟩
    | constant constant =>
      have hconstant := constantOf_eq h.requested.interned (htyped constant rfl)
      exact ⟨.addConstant constant.literal, (Step.bind_of_ok hconstant).trans (hdrop _ hrun)⟩
    | global global => exact hvalue.elim
    | result instruction => exact absurd rfl (hresult instruction)
  obtain ⟨request, hrequest⟩ := hrequest
  obtain ⟨hgrows, hadded⟩ := (addValue_yields program value).of_eq_ok hrun
  have hstep := h.step request hrequest fun hextends => ?_
  · exact ⟨hstep.1, hstep.2, hadded⟩
  obtain ⟨-, rfl⟩ := Prod.mk.inj (Except.ok.inj hrun)
  refine h.toAsRead.grows hgrows (fun other found hfound => ?_) fun other entry hentry => ?_
  · rcases Arena.get?_alloc_eq_some hfound with ⟨-, rfl⟩ | hold
    · refine .inr (hvalue.mono hextends (fun _ _ hnamed => hnamed) ?_)
      intro instruction entry hequal
      exact absurd hequal (hresult instruction)
    · exact .inl hold
  · exact .inl ⟨entry, hentry, rfl⟩

/-- Creating an instruction. -/
theorem read_of_addInstruction {operation : Operation} {ref : InstructionRef}
    (hoperation : program.AdmitsOperation operation)
    (hrun : addInstruction operation program = .ok (ref, after)) :
    after.Read ∧ program.Extends after ∧
      after.instructions.get? ref = some { self := ref, operation } ∧
      ∀ value, after.values.get? value ≠ some (.result ref) := by
  obtain ⟨hgrows, hadded⟩ := (addInstruction_yields program operation).of_eq_ok hrun
  have hunused := h.toAsRead.no_result_nextRef
  have hstep := h.step (.addInstruction operation)
    ((Step.drop_eq_ok fun _ => rfl).2 ⟨ref, hrun⟩) fun hextends => ?_
  · obtain ⟨rfl, rfl⟩ := Prod.mk.inj (Except.ok.inj hrun)
    exact ⟨hstep.1, hstep.2, hadded, hunused⟩
  obtain ⟨-, rfl⟩ := Prod.mk.inj (Except.ok.inj hrun)
  refine h.toAsRead.grows hgrows (fun _ _ hvalue => .inl hvalue) fun other entry hentry => ?_
  rcases Arena.get?_alloc_eq_some hentry with ⟨-, rfl⟩ | hold
  · exact .inr (hoperation.mono hextends)
  · exact .inl ⟨entry, hold, rfl⟩

/-- Asking for the value of an instruction that a register is set to. -/
theorem read_of_resultValue {ref : InstructionRef} {entry : Instruction} {value : ValueRef}
    (hentry : program.instructions.get? ref = some entry) (hlabel : entry.label = none)
    (hproducer : entry.operation.isProducer) (hnew : entry.result = none)
    (hrun : resultValue ref program = .ok (value, after)) :
    after.Read ∧ program.Extends after ∧ after.values.get? value = some (.result ref) := by
  obtain ⟨hgrows, hvalue⟩ := (resultValue_yields hentry).of_eq_ok hrun
  -- no more than the result of the instruction has changed
  have hadmits : after.AdmitsValue (.result ref) := by
    obtain ⟨result, hresult⟩ := hgrows.instructions ref entry hentry
    exact ⟨_, hresult, hlabel, hproducer⟩
  have hstep := h.step (.getResult ref)
    ((Step.drop_eq_ok fun _ => rfl).2 ⟨value, hrun⟩) fun hextends => ?_
  · exact ⟨hstep.1, hstep.2, hvalue hnew⟩
  obtain ⟨known, hknown, ⟨-, rfl⟩ | ⟨-, -, rfl⟩⟩ := resultValue_cases hrun
  · exact h.toAsRead
  refine h.toAsRead.grows hgrows (fun other found hfound => ?_) fun other found hfound => .inl ?_
  · rcases Arena.get?_alloc_eq_some hfound with ⟨-, rfl⟩ | hold
    · exact .inr hadmits
    · exact .inl hold
  · obtain ⟨old, hold, rfl | ⟨-, rfl⟩⟩ := Arena.get?_modify_eq_some hfound <;>
      exact ⟨_, hold, rfl⟩

/-- Declaring a function. -/
theorem read_of_declareFunction {name : String} {type : TypeRef} {ref : FunctionRef}
    (hrun : declareFunction name type program = .ok (ref, after)) : program.Keeps after := by
  obtain ⟨signature, hsignature, hnew⟩ := new_of_declareFunction hrun
  obtain ⟨-, rfl⟩ := Prod.mk.inj (Except.ok.inj
    ((declareFunction_of_none hsignature hnew).symm.trans hrun))
  exact h.keeps (.declare name type) ((Step.drop_eq_ok fun _ => rfl).2 ⟨ref, hrun⟩) rfl
    fun hextends => h.toAsRead.congr hextends (fun _ _ hnamed => hnamed) rfl rfl

/-- Naming the parameters of a function. -/
theorem read_of_setParams {function : FunctionRef} {params : List String}
    (hrun : setParams function params program = .ok ((), after)) : program.Keeps after := by
  obtain ⟨entry, -, rfl⟩ := exists_of_updateFunction hrun
  exact h.keeps (.setParams function params) hrun rfl
    fun hextends => h.toAsRead.congr hextends (fun _ _ hnamed => hnamed) rfl rfl

/-- Defining a global. -/
theorem read_of_defineGlobal {name : String} {initial : Constant} {ref : GlobalRef}
    (htype : program.typeName initial.type = .ok initial.literal.typeName)
    (hrun : defineGlobal name initial program = .ok (ref, after)) : program.Keeps after := by
  have hconstant := constantOf_eq h.requested.interned htype
  have hnew := new_of_defineGlobal hrun
  obtain ⟨-, rfl⟩ := Prod.mk.inj (Except.ok.inj ((defineGlobal_of_none _ hnew).symm.trans hrun))
  refine h.keeps (.define name initial.literal)
    ((Step.bind_of_ok hconstant).trans ((Step.drop_eq_ok fun _ => rfl).2 ⟨ref, hrun⟩)) rfl
    fun hextends => ?_
  refine h.toAsRead.congr hextends (fun other global hnamed => ?_) rfl rfl
  -- a name that has been found is not the new one
  have hne : other ≠ name := by
    rintro rfl
    exact absurd (hnew.symm.trans hnamed) (by simp)
  rw [globalNamed?, NameTable.find?_insert, if_neg hne]
  exact hnamed

/-- Appending an instruction that is no result. -/
theorem read_of_append {function : FunctionRef} {name : String} {ref : InstructionRef}
    (hunused : ∀ value, program.values.get? value ≠ some (.result ref))
    (hrun : append function name ref program = .ok ((), after)) : program.Keeps after := by
  obtain ⟨layout, hbuilt⟩ := h.requested.exists_built
  obtain ⟨chains, hlinks⟩ := hbuilt.links
  obtain ⟨label, labelled, pushed, hlabel, -, hrelinks, -, rfl⟩ := append_parts hlinks hrun
  have hrest := labelNamed_rest hlabel
  have hinstructions : labelled.instructions = program.instructions := by rw [hrest]
  refine h.keeps (.append function name ref) hrun ?_ fun hextends => ?_
  · rw [← hinstructions]
    exact hrelinks.size
  refine h.toAsRead.mono hextends (fun other global hnamed => ?_) ?_ ?_ ?_
  · rw [globalNamed?, hrelinks.rest, hrest]
    exact hnamed
  · -- only the appended instruction gets a label, and it has no result
    intro value other entry hvalue hentry
    have hne : other ≠ ref := by
      rintro rfl
      exact hunused value hvalue
    obtain ⟨entry', hentry', hsame, -⟩ := hrelinks.others other entry (hinstructions ▸ hentry) hne
    exact ⟨entry', hentry', hsame⟩
  · intro other value hvalue
    rw [hrelinks.rest, hrest] at hvalue
    exact .inl hvalue
  · -- linking changes no operation
    intro other entry hentry
    have hsame := hrelinks.instructions other
    rw [show pushed.instructions.get? other = some entry from hentry, Option.map_some, eq_comm,
      Option.map_eq_some_iff] at hsame
    obtain ⟨old, hold, hequal⟩ := hsame
    have hoperation : old.unlinked.operation = entry.unlinked.operation :=
      congrArg Instruction.operation hequal
    exact .inl ⟨old, hinstructions ▸ hold, hoperation.symm⟩

end Edit

end ChainIR
