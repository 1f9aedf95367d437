import Mathlib
import ChainIR.Proofs.Growth

/-! # Programs whose handles are their own

A handle is a reference to an entry of some arena. Values, instructions and requests carry handles
(`Value.handles`, `Operation.handles`, `Request.handles`), and nothing in a handle says which
program it belongs to. A program is grounded (`Program.Grounded`) if all handles in its values, its
instructions and its globals find entries of its own, and if an instruction whose result is an
operand is older than the instruction that has the operand. Requests that come with handles of the
program keep it grounded (`Request.grounded_of_run`): a new instruction stands behind everything
that it can refer to, and a value that is made later for an old instruction refers to that
instruction and to no operand of it. -/

namespace ChainIR

/-- A reference to an entry of some arena. -/
inductive Handle
  | type (ref : TypeRef)
  | value (ref : ValueRef)
  | instruction (ref : InstructionRef)
  | label (ref : LabelRef)
  | function (ref : FunctionRef)
  | global (ref : GlobalRef)

/-- The handles that a value carries. -/
def Value.handles : Value → List Handle
  | .register _ type => [.type type]
  | .globalPointer _ type => [.type type]
  | .constant typed => [.type typed.type]
  | .global ref => [.global ref]
  | .result ref => [.instruction ref]

/-- The handles that an instruction carries besides its links. -/
def Operation.handles : Operation → List Handle
  | .call callee arguments => .function callee :: arguments.map .value
  | .alloc type => [.type type]
  | operation => operation.operands.map .value

/-- The operands of an instruction are among its handles. -/
theorem Operation.value_mem_handles {operation : Operation} {operand : ValueRef}
    (h : operand ∈ operation.operands) : .value operand ∈ operation.handles := by
  have hmem : Handle.value operand ∈ operation.operands.map .value := List.mem_map_of_mem h
  cases operation with
  | call callee arguments => exact List.mem_cons_of_mem _ hmem
  | alloc type => exact absurd h List.not_mem_nil
  | ret | set | store | jump | branch | load => exact hmem

/-- The handles that come with a request. -/
def Request.handles : Request → List Handle
  | .getType (.ofShape shape) => shape.parts.map .type
  | .getType (.ofName _) => []
  | .addRegister _ type => [.type type]
  | .addGlobalPointer _ type => [.type type]
  | .addConstant _ => []
  | .getResult instruction => [.instruction instruction]
  | .getGlobal global => [.global global]
  | .addInstruction operation => operation.handles
  | .declare _ type => [.type type]
  | .setParams function _ => [.function function]
  | .define _ _ => []
  | .append function _ instruction => [.function function, .instruction instruction]
  | .appendNew cursor operation => cursor.function.toList.map .function ++ operation.handles
  | .pushBack label instruction => [.label label, .instruction instruction]
  | .insertAfter point instruction => [.instruction point, .instruction instruction]

namespace Program

/-- The program has an entry behind a handle. -/
def Knows (program : Program) : Handle → Prop
  | .type ref => (program.types.get? ref).isSome
  | .value ref => (program.values.get? ref).isSome
  | .instruction ref => (program.instructions.get? ref).isSome
  | .label ref => (program.labels.get? ref).isSome
  | .function ref => (program.functions.get? ref).isSome
  | .global ref => (program.globals.get? ref).isSome

instance (program : Program) : DecidablePred program.Knows := fun handle => by
  cases handle <;> exact instDecidableEqBool _ _

section Knows

variable {program after : Program}

/-- A type with a name is known. -/
theorem knows_of_typeName {ref : TypeRef} {name : String} (h : program.typeName ref = .ok name) :
    program.Knows (.type ref) := by
  obtain ⟨entry, hentry, -⟩ := typeName_eq_ok.1 h
  exact Option.isSome_of_mem hentry

/-- A type that is known has a name. -/
theorem exists_typeName_of_knows {ref : TypeRef} (h : program.Knows (.type ref)) :
    ∃ name, program.typeName ref = .ok name := by
  obtain ⟨entry, hentry⟩ := Option.isSome_iff_exists.1 h
  exact ⟨entry.name, typeName_eq_ok.2 ⟨entry, hentry, rfl⟩⟩

/-- Handles go on to be known, if labels do. -/
theorem Extends.knows (h : program.Extends after)
    (hlabels : ∀ ref, program.Knows (.label ref) → after.Knows (.label ref)) (handle : Handle)
    (hknown : program.Knows handle) : after.Knows handle := by
  cases handle with
  | label ref => exact hlabels ref hknown
  | type ref =>
    obtain ⟨entry, hentry⟩ := Option.isSome_iff_exists.1 hknown
    exact Option.isSome_of_mem (h.types ref entry hentry)
  | value ref =>
    obtain ⟨entry, hentry⟩ := Option.isSome_iff_exists.1 hknown
    exact Option.isSome_of_mem (h.values ref entry hentry)
  | instruction ref =>
    obtain ⟨entry, hentry⟩ := Option.isSome_iff_exists.1 hknown
    obtain ⟨entry', hentry', -⟩ := h.instructions ref entry hentry
    exact Option.isSome_of_mem hentry'
  | function ref =>
    obtain ⟨entry, hentry⟩ := Option.isSome_iff_exists.1 hknown
    obtain ⟨entry', hentry', -⟩ := h.functions ref entry hentry
    exact Option.isSome_of_mem hentry'
  | global ref =>
    obtain ⟨entry, hentry⟩ := Option.isSome_iff_exists.1 hknown
    obtain ⟨entry', hentry', -⟩ := h.globals ref entry hentry
    exact Option.isSome_of_mem hentry'

/-- A program that only grows goes on to know its handles. -/
theorem OnlyGrows.knows (h : program.OnlyGrows after) (handle : Handle) :
    program.Knows handle → after.Knows handle := by
  refine h.toExtends.knows (fun ref hknown => ?_) handle
  obtain ⟨entry, hentry⟩ := Option.isSome_iff_exists.1 hknown
  obtain ⟨entry', hentry', -⟩ := h.labels ref entry hentry
  exact Option.isSome_of_mem hentry'

/-- A program that grows goes on to know its handles. -/
theorem Grows.knows (h : program.Grows after) (handle : Handle) :
    program.Knows handle → after.Knows handle := by
  refine h.toExtends.knows (fun ref hknown => ?_) handle
  rw [Knows, h.labels]
  exact hknown

end Knows

/-! ## Grounded programs -/

/-- **Grounded programs**: all handles in the entries of a program are its own, and the results that
an instruction takes as operands are results of older instructions. -/
structure Grounded (program : Program) : Prop where
  /-- The handles in values. -/
  values : ∀ ref value, program.values.get? ref = some value →
    ∀ handle ∈ value.handles, program.Knows handle
  /-- The handles in instructions. -/
  operations : ∀ ref entry, program.instructions.get? ref = some entry →
    ∀ handle ∈ entry.operation.handles, program.Knows handle
  /-- The instruction behind an operand is older than the one that has the operand. -/
  descending : ∀ ref entry, program.instructions.get? ref = some entry →
    ∀ operand ∈ entry.operation.operands, ∀ inner,
      program.values.get? operand = some (.result inner) → inner.index < ref.index
  /-- The types of the constants that globals are bound to. -/
  globals : ∀ ref entry, program.globals.get? ref = some entry →
    program.Knows (.type entry.initial.type)

/-- The initial program has no values, no instructions and no globals. -/
theorem grounded_initial : Grounded initial := by
  have hvalues : initial.values.size = 0 := by decide +kernel
  have hinstructions : initial.instructions.size = 0 := by decide +kernel
  have hglobals : initial.globals.size = 0 := by decide +kernel
  refine ⟨fun ref value hvalue => ?_, fun ref entry hentry => ?_, fun ref entry hentry => ?_,
    fun ref entry hentry => ?_⟩
  · exact absurd (Arena.lt_size_of_get? hvalue) (by omega)
  · exact absurd (Arena.lt_size_of_get? hentry) (by omega)
  · exact absurd (Arena.lt_size_of_get? hentry) (by omega)
  · exact absurd (Arena.lt_size_of_get? hentry) (by omega)

namespace Grounded

variable {program after : Program}

/-- What is new in a program may carry handles that were known before. A new instruction then stands
behind all instructions whose results it takes. -/
theorem mono (h : program.Grounded) (hextends : program.Extends after)
    (hknows : ∀ handle, program.Knows handle → after.Knows handle)
    (hvalues : ∀ ref value, after.values.get? ref = some value →
      program.values.get? ref = some value ∨ ∀ handle ∈ value.handles, program.Knows handle)
    (hinstructions : ∀ ref entry, after.instructions.get? ref = some entry →
      (∃ old, program.instructions.get? ref = some old ∧ entry.operation = old.operation) ∨
        program.instructions.size ≤ ref.index ∧
          ∀ handle ∈ entry.operation.handles, program.Knows handle)
    (hglobals : ∀ ref entry, after.globals.get? ref = some entry →
      (∃ old, program.globals.get? ref = some old ∧ entry.initial = old.initial) ∨
        program.Knows (.type entry.initial.type)) : after.Grounded := by
  -- an operand that was known is the value that it was
  have hsame : ∀ {operand value}, program.Knows (.value operand) →
      after.values.get? operand = some value → program.values.get? operand = some value := by
    intro operand value hknown hvalue
    obtain ⟨old, hold⟩ := Option.isSome_iff_exists.1 hknown
    rw [hold, ← hextends.values operand old hold, hvalue]
  refine ⟨fun ref value hvalue handle hmem => ?_, fun ref entry hentry handle hmem => ?_,
    fun ref entry hentry operand hmem inner hinner => ?_, fun ref entry hentry => ?_⟩
  · rcases hvalues ref value hvalue with hold | hnew
    · exact hknows _ (h.values ref value hold handle hmem)
    · exact hknows _ (hnew handle hmem)
  · rcases hinstructions ref entry hentry with ⟨old, hold, hequal⟩ | ⟨-, hnew⟩
    · exact hknows _ (h.operations ref old hold handle (hequal ▸ hmem))
    · exact hknows _ (hnew handle hmem)
  · rcases hinstructions ref entry hentry with ⟨old, hold, hequal⟩ | ⟨hbehind, hnew⟩
    · rw [hequal] at hmem
      have hknown := h.operations ref old hold _ (Operation.value_mem_handles hmem)
      exact h.descending ref old hold operand hmem inner (hsame hknown hinner)
    · -- whatever is known is in front of a new instruction
      have hresult := hsame (hnew _ (Operation.value_mem_handles hmem)) hinner
      have hknown := h.values operand _ hresult (.instruction inner) List.mem_cons_self
      exact Nat.lt_of_lt_of_le ((Arena.get?_isSome_iff _ _).1 hknown) hbehind
  · rcases hglobals ref entry hentry with ⟨old, hold, hequal⟩ | hnew
    · rw [hequal]
      exact hknows _ (h.globals ref old hold)
    · exact hknows _ hnew

/-- Types are added. -/
theorem addTypes (h : program.Grounded) (hadds : program.AddsTypes after)
    (hinterned : after.Interned) : after.Grounded := by
  have hgrows := Grows.of_addsTypes hadds hinterned
  have hrest := hadds.rest
  refine h.mono hgrows.toExtends hgrows.knows (fun ref value hvalue => .inl ?_)
    (fun ref entry hentry => .inl ⟨entry, ?_, rfl⟩) fun ref entry hentry => .inl ⟨entry, ?_, rfl⟩
  · rwa [hrest] at hvalue
  · rwa [hrest] at hentry
  · rwa [hrest] at hentry

/-- A value is created from handles that are known. -/
theorem addValue (h : program.Grounded) {value : Value} {ref : ValueRef}
    (hknown : ∀ handle ∈ value.handles, program.Knows handle)
    (hrun : Edit.addValue value program = .ok (ref, after)) :
    after.Grounded ∧ after.Knows (.value ref) := by
  obtain ⟨hgrows, hadded⟩ := (Edit.addValue_yields program value).of_eq_ok hrun
  refine ⟨?_, Option.isSome_of_mem hadded⟩
  obtain ⟨-, rfl⟩ := Prod.mk.inj (Except.ok.inj hrun)
  refine h.mono hgrows.toExtends hgrows.knows (fun other found hfound => ?_)
    (fun other entry hentry => .inl ⟨entry, hentry, rfl⟩)
    fun other entry hentry => .inl ⟨entry, hentry, rfl⟩
  rcases Arena.get?_alloc_eq_some hfound with ⟨-, rfl⟩ | hold
  · exact .inr hknown
  · exact .inl hold

/-- An instruction is created from handles that are known. -/
theorem addInstruction (h : program.Grounded) {operation : Operation} {ref : InstructionRef}
    (hknown : ∀ handle ∈ operation.handles, program.Knows handle)
    (hrun : Edit.addInstruction operation program = .ok (ref, after)) : after.Grounded := by
  obtain ⟨hgrows, -⟩ := (Edit.addInstruction_yields program operation).of_eq_ok hrun
  obtain ⟨-, rfl⟩ := Prod.mk.inj (Except.ok.inj hrun)
  refine h.mono hgrows.toExtends hgrows.knows (fun _ _ hvalue => .inl hvalue)
    (fun other entry hentry => ?_) fun _ entry hentry => .inl ⟨entry, hentry, rfl⟩
  rcases Arena.get?_alloc_eq_some hentry with ⟨rfl, rfl⟩ | hold
  · exact .inr ⟨le_rfl, hknown⟩
  · exact .inl ⟨entry, hold, rfl⟩

/-- The value of an instruction refers to the instruction itself, however late it is made. -/
theorem resultValue (h : program.Grounded) {ref : InstructionRef} {value : ValueRef}
    (hrun : Edit.resultValue ref program = .ok (value, after)) : after.Grounded := by
  obtain ⟨entry, hentry, ⟨-, rfl⟩ | ⟨-, -, rfl⟩⟩ := Edit.resultValue_cases hrun
  · exact h
  have hgrows := ((Edit.resultValue_yields hentry).of_eq_ok hrun).1
  refine h.mono hgrows.toExtends hgrows.knows (fun other found hfound => ?_)
    (fun other found hfound => .inl ?_) fun _ entry hentry => .inl ⟨entry, hentry, rfl⟩
  · rcases Arena.get?_alloc_eq_some hfound with ⟨-, rfl⟩ | hold
    · refine .inr fun handle hmem => ?_
      obtain rfl := List.mem_singleton.1 hmem
      exact Option.isSome_of_mem hentry
    · exact .inl hold
  · obtain ⟨old, hold, rfl | ⟨-, rfl⟩⟩ := Arena.get?_modify_eq_some hfound <;>
      exact ⟨_, hold, rfl⟩

/-- The value of a global refers to the global itself. -/
theorem globalValue (h : program.Grounded) {ref : GlobalRef} {value : ValueRef}
    (hrun : Edit.globalValue ref program = .ok (value, after)) : after.Grounded := by
  have hgrows := Edit.onlyGrows_of_globalValue hrun
  obtain ⟨entry, hentry, rfl | ⟨-, rfl⟩⟩ := Edit.globalValue_cases hrun
  · exact h
  refine h.mono hgrows.toExtends hgrows.knows (fun other found hfound => ?_)
    (fun _ entry hentry => .inl ⟨entry, hentry, rfl⟩) fun other found hfound => .inl ?_
  · rcases Arena.get?_alloc_eq_some hfound with ⟨-, rfl⟩ | hold
    · refine .inr fun handle hmem => ?_
      obtain rfl := List.mem_singleton.1 hmem
      exact Option.isSome_of_mem hentry
    · exact .inl hold
  · obtain ⟨old, hold, rfl | ⟨-, rfl⟩⟩ := Arena.get?_modify_eq_some hfound <;>
      exact ⟨_, hold, rfl⟩

/-- A global is defined with a type that is known. -/
theorem defineGlobal (h : program.Grounded) {name : String} {initial : Constant} {ref : GlobalRef}
    (hknown : program.Knows (.type initial.type))
    (hrun : Edit.defineGlobal name initial program = .ok (ref, after)) : after.Grounded := by
  have hgrows := Edit.onlyGrows_of_defineGlobal hrun
  obtain ⟨-, rfl⟩ := Prod.mk.inj (Except.ok.inj
    ((Edit.defineGlobal_of_none initial (Edit.new_of_defineGlobal hrun)).symm.trans hrun))
  refine h.mono hgrows.toExtends hgrows.knows (fun _ _ hvalue => .inl hvalue)
    (fun _ entry hentry => .inl ⟨entry, hentry, rfl⟩) fun other entry hentry => ?_
  rcases Arena.get?_alloc_eq_some hentry with ⟨-, rfl⟩ | hold
  · exact .inr hknown
  · exact .inl ⟨entry, hold, rfl⟩

/-- Values, globals and what instructions do stay as they are, whatever else changes. -/
theorem congr (h : program.Grounded) (hgrows : program.OnlyGrows after)
    (hvalues : after.values = program.values) (hglobals : after.globals = program.globals)
    (hinstructions : ∀ ref entry, after.instructions.get? ref = some entry →
      ∃ old, program.instructions.get? ref = some old ∧ entry.operation = old.operation) :
    after.Grounded :=
  h.mono hgrows.toExtends hgrows.knows (fun _ _ hvalue => .inl (hvalues ▸ hvalue))
    (fun ref entry hentry => .inl (hinstructions ref entry hentry))
    fun _ entry hentry => .inl ⟨entry, hglobals ▸ hentry, rfl⟩

/-- A function is declared. -/
theorem declareFunction (h : program.Grounded) {name : String} {type : TypeRef} {ref : FunctionRef}
    (hrun : Edit.declareFunction name type program = .ok (ref, after)) : after.Grounded := by
  have hgrows := Edit.onlyGrows_of_declareFunction hrun
  obtain ⟨signature, hsignature, hnew⟩ := Edit.new_of_declareFunction hrun
  obtain ⟨-, rfl⟩ := Prod.mk.inj (Except.ok.inj
    ((Edit.declareFunction_of_none hsignature hnew).symm.trans hrun))
  exact h.congr hgrows rfl rfl fun _ entry hentry => ⟨entry, hentry, rfl⟩

/-- Parameters get their names. -/
theorem setParams (h : program.Grounded) {function : FunctionRef} {params : List String}
    (hrun : Edit.setParams function params program = .ok ((), after)) : after.Grounded := by
  have hgrows := Edit.onlyGrows_of_setParams hrun
  obtain ⟨entry, -, rfl⟩ := Edit.exists_of_updateFunction hrun
  exact h.congr hgrows rfl rfl fun _ entry hentry => ⟨entry, hentry, rfl⟩

end Grounded

namespace Grounded

variable {program after : Program} {chains : LabelRef → List InstructionRef}

/-- An instruction is linked into a chain. -/
theorem relinks (h : program.Grounded) (hgrows : program.OnlyGrows after) {label : LabelRef}
    {ref : InstructionRef} (hrelinks : program.Relinks label ref after) : after.Grounded := by
  refine h.congr hgrows ?_ ?_ fun other entry hentry => ?_
  · rw [hrelinks.rest]
  · rw [hrelinks.rest]
  · obtain ⟨old, hold, -, hoperation, -⟩ := hrelinks.instruction_before hentry
    exact ⟨old, hold, hoperation⟩

/-- An instruction is appended to a label. -/
theorem append (h : program.Grounded) (hlinks : program.Links chains) {function : FunctionRef}
    {name : String} {ref : InstructionRef}
    (hrun : Edit.append function name ref program = .ok ((), after)) : after.Grounded := by
  have hgrows := Edit.onlyGrows_of_append hlinks hrun
  obtain ⟨label, labelled, pushed, hlabel, -, hrelinks, -, rfl⟩ := Edit.append_parts hlinks hrun
  have hrest := Edit.labelNamed_rest hlabel
  refine h.congr hgrows ?_ ?_ fun other entry hentry => ?_
  · rw [hrelinks.rest, hrest]
  · rw [hrelinks.rest, hrest]
  · obtain ⟨old, hold, -, hoperation, -⟩ := hrelinks.instruction_before hentry
    rw [hrest] at hold
    exact ⟨old, hold, hoperation⟩

end Grounded

end Program

/-! ## Requests with handles of the program -/

/-- All handles that come with a request are known. -/
def Request.KnownTo (request : Request) (program : Program) : Prop :=
  ∀ handle ∈ request.handles, program.Knows handle

instance (request : Request) (program : Program) : Decidable (request.KnownTo program) :=
  inferInstanceAs (Decidable (∀ handle ∈ request.handles, program.Knows handle))

namespace Edit

open Program

variable {program after : Program}

/-- The constant of a literal has a type of the program. -/
theorem grounded_of_constantOf (h : program.Grounded) (hinterned : program.Interned)
    {literal : Literal} {constant : Constant}
    (hrun : constantOf literal program = .ok (constant, after)) :
    after.Grounded ∧ after.Knows (.type constant.type) := by
  obtain ⟨-, rfl, htype⟩ := (constantOf_yields hinterned literal).of_eq_ok hrun
  refine ⟨?_, knows_of_typeName htype⟩
  obtain ⟨request, hrequest⟩ := exists_request_of_constantOf hrun
  obtain ⟨hadds, hafter⟩ := TypeRequest.addsTypes_of_run hinterned hrequest
  exact h.addTypes hadds hafter

end Edit

/-- A request that spares the operands keeps a program grounded, whatever handles it comes with. -/
theorem Request.grounded_of_spares {request : Request} {program after : Program}
    (hspares : request.SparesOperands) (hreachable : program.Reachable) (h : program.Grounded)
    (hrun : request.run program = .ok ((), after)) : after.Grounded := by
  obtain ⟨layout, hbuilt⟩ := hreachable.requested.exists_built
  obtain ⟨chains, hlinks⟩ := hbuilt.links
  have hgrows := onlyGrows hreachable hrun
  cases request with
  | getType request =>
    obtain ⟨hadds, hafter⟩ := TypeRequest.addsTypes_of_run hbuilt.interned hrun
    exact h.addTypes hadds hafter
  | declare name type =>
    obtain ⟨ref, hdeclare⟩ := (Step.drop_eq_ok fun _ => rfl).1 hrun
    exact h.declareFunction hdeclare
  | setParams function params => exact h.setParams hrun
  | define name literal =>
    obtain ⟨constant, middle, hconstant, hrest⟩ := Step.bind_eq_ok.1 hrun
    obtain ⟨ref, hdefine⟩ := (Step.drop_eq_ok fun _ => rfl).1 hrest
    obtain ⟨hmiddle, htype⟩ := Edit.grounded_of_constantOf h hbuilt.interned hconstant
    exact hmiddle.defineGlobal htype hdefine
  | append function label instruction => exact h.append hlinks hrun
  | pushBack label instruction =>
    obtain ⟨entry, ends, hentry, hunlinked, hends⟩ := Edit.free_of_pushBack hrun
    obtain ⟨-, hrelinks⟩ := (Edit.pushBack_links hlinks hends hentry hunlinked).of_eq_ok hrun
    exact h.relinks hgrows hrelinks
  | insertAfter point instruction =>
    obtain ⟨place, label, entry, hplace, hlabel, hentry, hunlinked⟩ := Edit.free_of_insertAfter hrun
    obtain ⟨position, -, hyields⟩ := Edit.insertAfter_links hlinks hplace hlabel hentry hunlinked
    exact h.relinks hgrows (hyields.of_eq_ok hrun).2
  | addRegister | addGlobalPointer | addConstant | getResult | getGlobal | addInstruction
  | appendNew => exact hspares.elim

/-- Requests that spare the operands keep a program grounded. -/
theorem Program.BecomesBy.grounded {program after : Program}
    (h : program.BecomesBy Request.SparesOperands after) (hreachable : program.Reachable)
    (hgrounded : program.Grounded) : after.Grounded :=
  (h.keeps Program.Grounded (fun _ _ _ hspares hthere hbefore hrun =>
    Request.grounded_of_spares hspares hthere hbefore hrun) hreachable hgrounded).2

/-- **Requests keep operands grounded**, if they come with handles of the program. -/
theorem Request.grounded_of_run {request : Request} {program after : Program}
    (hreachable : program.Reachable) (h : program.Grounded) (hknown : request.KnownTo program)
    (hrun : request.run program = .ok ((), after)) : after.Grounded := by
  by_cases hspares : request.SparesOperands
  · exact grounded_of_spares hspares hreachable h hrun
  obtain ⟨layout, hbuilt⟩ := hreachable.requested.exists_built
  cases request with
  | addRegister name type =>
    obtain ⟨ref, hadd⟩ := (Step.drop_eq_ok fun _ => rfl).1 hrun
    have hvalue : ∀ handle ∈ (Value.register name type).handles, program.Knows handle := hknown
    exact (h.addValue hvalue hadd).1
  | addGlobalPointer name type =>
    obtain ⟨ref, hadd⟩ := (Step.drop_eq_ok fun _ => rfl).1 hrun
    have hvalue : ∀ handle ∈ (Value.globalPointer name type).handles, program.Knows handle := hknown
    exact (h.addValue hvalue hadd).1
  | addConstant literal =>
    obtain ⟨constant, middle, hconstant, hrest⟩ := Step.bind_eq_ok.1 hrun
    obtain ⟨value, hadd⟩ := (Step.drop_eq_ok fun _ => rfl).1 hrest
    obtain ⟨hmiddle, htype⟩ := Edit.grounded_of_constantOf h hbuilt.interned hconstant
    refine (hmiddle.addValue (fun handle hmem => ?_) hadd).1
    obtain rfl := List.mem_singleton.1 hmem
    exact htype
  | getResult instruction =>
    obtain ⟨value, hresult⟩ := (Step.drop_eq_ok fun _ => rfl).1 hrun
    exact h.resultValue hresult
  | getGlobal global =>
    obtain ⟨value, hresult⟩ := (Step.drop_eq_ok fun _ => rfl).1 hrun
    exact h.globalValue hresult
  | addInstruction operation =>
    obtain ⟨ref, hadd⟩ := (Step.drop_eq_ok fun _ => rfl).1 hrun
    exact h.addInstruction hknown hadd
  | appendNew cursor operation =>
    obtain ⟨answer, happend⟩ := (Step.drop_eq_ok fun _ => rfl).1 hrun
    obtain ⟨ref, middle, hadd, hrest⟩ := Step.bind_eq_ok.1 happend
    have hadded :=
      h.addInstruction (fun handle hmem => hknown _ (List.mem_append_right _ hmem)) hadd
    -- the new instruction may be appended, or the cursor has no function
    obtain ⟨-, -, rfl⟩ | ⟨function, -, -, hlinked⟩ := Edit.cursorAppend_cases hrest
    · exact hadded
    · obtain ⟨chains, hlinks⟩ := hbuilt.links
      exact hadded.append (hlinks.grows (Edit.develops_of_addInstruction hadd).toGrows) hlinked
  | _ => exact absurd trivial hspares

end ChainIR
