import Mathlib
import ChainIR.Proofs.Reading.Arenas
import ChainIR.Proofs.Reading.Phrase
import ChainIR.Proofs.Reading.Sound

/-! # What a line may build

Along a line a program only grows, by types, values and instructions (`Program.Builds`). A line of
a body makes an instruction that is what the line says (`Program.Says`); in front of it stands the
one whose result it sets a register to, if it does (`Program.unfolded`), and nothing else is new
among the instructions. Operands of a program that has been read stand for themselves, which is
what the instructions that a line makes need to be such as reading makes
(`Program.OperationIs.admits`). -/

namespace ChainIR

/-! ## Instructions under others -/

namespace Arena

variable {κ : Type} {tag : κ} {α : Type}

/-- One more entry has one more reference. -/
theorem refs_succ {arena other : Arena tag α} (h : other.size = arena.size + 1) :
    other.refs = arena.refs ++ [arena.nextRef] := by
  rw [refs, refs, h, List.range_succ, List.map_append]
  rfl

/-- Arenas of one size have the same references. -/
theorem refs_congr {arena other : Arena tag α} (h : other.size = arena.size) :
    other.refs = arena.refs := by rw [refs, refs, h]

end Arena

namespace Program

/-- The instruction whose result a register is set to by an operation, if it is. -/
def innerOf? (program : Program) : Operation → Option InstructionRef
  | .set _ value =>
    match program.values.get? value with
    | some (.result inner) => some inner
    | _ => none
  | _ => none

/-- The instruction whose result an instruction sets a register to, if it does. -/
def inner? (program : Program) (ref : InstructionRef) : Option InstructionRef :=
  (program.instructions.get? ref).bind fun entry => program.innerOf? entry.operation

/-- An instruction, behind the one whose result it sets a register to. -/
def unfolded (program : Program) (ref : InstructionRef) : List InstructionRef :=
  (program.inner? ref).toList ++ [ref]

/-- An instruction that has just been created: it is in no chain, and it is no operand. -/
structure IsNew (program : Program) (ref : InstructionRef) (operation : Operation) : Prop where
  /-- The instruction has no links. -/
  entry : program.instructions.get? ref = some { self := ref, operation }
  /-- Nobody has asked for its result. -/
  unused : ∀ value, program.values.get? value ≠ some (.result ref)

/-- The instruction under a setting stays. -/
theorem Extends.innerOf?_eq {program after : Program} (h : program.Extends after)
    {operation : Operation} (hadmits : program.AdmitsOperation operation) :
    after.innerOf? operation = program.innerOf? operation := by
  cases operation with
  | set name value =>
    -- the operand is there already, so it stays as well
    obtain ⟨found, hfound⟩ : ∃ found, program.values.get? value = some found := by
      rcases hadmits with ⟨-, found, hfound, -⟩ | ⟨inner, hinner⟩
      · exact ⟨found, hfound⟩
      · exact ⟨_, hinner⟩
    rw [innerOf?, innerOf?, hfound, h.values value found hfound]
  | call | ret | alloc | store | jump | branch | load => rfl

/-- An instruction stays what it is with the one under it. -/
theorem Extends.unfolded_eq {program after : Program} (h : program.Extends after)
    (hread : program.AsRead) {ref : InstructionRef} {entry : Instruction}
    (hentry : program.instructions.get? ref = some entry) :
    after.unfolded ref = program.unfolded ref := by
  obtain ⟨entry', hentry', hsame⟩ := h.instructions ref entry hentry
  rw [unfolded, unfolded, inner?, inner?, hentry, hentry', Option.bind_some, Option.bind_some, hsame,
    h.innerOf?_eq (hread.operations ref entry hentry)]

/-- There is nothing under an instruction that sets no register to the result of another. -/
theorem OperationIs.innerOf?_eq_none {program : Program} {operation : Operation}
    {statement : Statement Callee} (h : program.OperationIs operation statement)
    (hplain : ∀ name producer, statement ≠ .assign name producer) :
    program.innerOf? operation = none := by
  cases statement with
  | produce producer =>
    cases producer with
    | call | alloc | load => obtain ⟨_, rfl, -⟩ := h; rfl
  | assign name producer => exact absurd rfl (hplain name producer)
  | set name operand =>
    obtain ⟨value, rfl, his⟩ := h
    cases operand with
    | register | constant =>
      obtain ⟨type, hvalue, -⟩ := his
      rw [innerOf?, hvalue]
    | global =>
      obtain ⟨global, entry, -, -, -, hvalue | hvalue⟩ := his <;> rw [innerOf?, hvalue]
  | ret operand =>
    cases operand with
    | none => obtain rfl := h; rfl
    | some operand => obtain ⟨value, rfl, -⟩ := h; rfl
  | store => obtain ⟨pointer, value, rfl, -⟩ := h; rfl
  | jump => obtain rfl := h; rfl
  | branch => obtain ⟨value, rfl, -⟩ := h; rfl

/-! ## What reading admits -/

/-- An operand in a program that has been read stands for itself. -/
theorem OperandIs.hasOperand {program : Program} (h : program.AsRead) {ref : ValueRef}
    {operand : Operand} (his : program.OperandIs ref operand) :
    ∃ type, program.HasOperand ref type ∧ program.typeName type = .ok operand.type := by
  cases operand with
  | register name type =>
    obtain ⟨typeRef, hvalue, htype⟩ := his
    exact ⟨typeRef, ⟨_, hvalue, rfl⟩, htype⟩
  | global name type =>
    obtain ⟨global, entry, -, -, htype, hvalue | hvalue⟩ := his
    · exact ⟨entry.initial.type, ⟨_, hvalue, rfl⟩, htype⟩
    -- requests may refer to the global itself, but reading never does
    · exact (h.values ref _ hvalue).elim
  | constant literal =>
    obtain ⟨typeRef, hvalue, htype⟩ := his
    exact ⟨typeRef, ⟨_, hvalue, rfl⟩, htype⟩

/-- Operands in a program that has been read stand for themselves. -/
theorem hasOperands {program : Program} (h : program.AsRead) {refs : List ValueRef}
    {operands : List Operand} (hoperands : List.Forall₂ program.OperandIs refs operands) :
    ∃ types, List.Forall₂ program.HasOperand refs types ∧
      List.Forall₂ (fun type name => program.typeName type = .ok name) types
        (operands.map Operand.type) := by
  induction hoperands with
  | nil => exact ⟨[], .nil, .nil⟩
  | cons hfirst _ ih =>
    obtain ⟨type, htype, hname⟩ := hfirst.hasOperand h
    obtain ⟨types, htypes, hnames⟩ := ih
    exact ⟨type :: types, .cons htype htypes, .cons hname hnames⟩

/-- An instruction that sets a register, leaves a function, stores or jumps is one that reading
makes if its operands are. -/
theorem OperationIs.admits {program : Program} (h : program.AsRead) {operation : Operation}
    {statement : Statement Callee} (his : program.OperationIs operation statement)
    (hplain : ∀ producer, statement ≠ .produce producer) : program.AdmitsOperation operation := by
  -- whatever operand is written has a type, which is all that an operation asks
  have howned : ∀ {ref operand}, program.OperandIs ref operand →
      ∃ type, program.HasOperand ref type := by
    intro ref operand hoperand
    obtain ⟨type, htype, -⟩ := hoperand.hasOperand h
    exact ⟨type, htype⟩
  cases statement with
  | produce producer => exact absurd rfl (hplain producer)
  | assign name producer =>
    obtain ⟨value, inner, entry, rfl, hvalue, -⟩ := his
    exact .inr ⟨inner, hvalue⟩
  | set name operand =>
    obtain ⟨value, rfl, hoperand⟩ := his
    exact .inl (howned hoperand)
  | ret operand =>
    cases operand with
    | none =>
      obtain rfl := his
      exact fun value hmem => absurd hmem List.not_mem_nil
    | some operand =>
      obtain ⟨value, rfl, hoperand⟩ := his
      intro other hmem
      obtain rfl := List.mem_singleton.1 hmem
      exact howned hoperand
  | store pointer operand =>
    obtain ⟨pointerRef, value, rfl, hpointer, hoperand⟩ := his
    intro other hmem
    rcases List.mem_cons.1 hmem with rfl | hmem
    · exact howned hpointer
    · obtain rfl := List.mem_singleton.1 hmem
      exact howned hoperand
  | jump target =>
    obtain rfl := his
    exact fun value hmem => absurd hmem List.not_mem_nil
  | branch condition whenTrue whenFalse =>
    obtain ⟨value, rfl, hcondition⟩ := his
    intro other hmem
    obtain rfl := List.mem_singleton.1 hmem
    exact howned hcondition

/-- The type of an operand that stands for itself. -/
theorem HasOperand.valueType_eq {program : Program} {ref : ValueRef} {type : TypeRef}
    (h : program.HasOperand ref type) : program.valueType ref = .ok (some type) := by
  obtain ⟨value, hvalue, htype⟩ := h
  rw [valueType, valueTypeWith, show program.value ref = .ok value from found_eq_ok.2 hvalue]
  cases value with
  | register | globalPointer | constant =>
    obtain rfl := Option.some.inj htype
    rfl
  | global | result => cases htype

/-- What comes first with a property has the property. -/
theorem holds_of_firstSuch? {α : Type} {holds : α → Except Fault Bool} {candidates : List α}
    {found : α} (h : firstSuch? holds candidates = .ok (some found)) : holds found = .ok true := by
  induction candidates with
  | nil => exact absurd h (by simp [firstSuch?])
  | cons first rest ih =>
    rw [firstSuch?] at h
    obtain ⟨answer, hfirst, h⟩ := query_bind_eq_ok.1 h
    cases answer with
    | true =>
      obtain rfl : first = found := Option.some.inj (Except.ok.inj h)
      exact hfirst
    | false => exact ih h

/-- A function with a property of its signature has a signature. -/
theorem exists_of_functionAccepts {program : Program} {property : Signature → Bool}
    {ref : FunctionRef} (h : program.functionAccepts property ref = .ok true) :
    ∃ entry signature, program.functions.get? ref = some entry ∧
      program.signature? entry.type = .ok (some signature) ∧ property signature := by
  rw [functionAccepts] at h
  obtain ⟨entry, hentry, h⟩ := query_bind_eq_ok.1 h
  obtain ⟨signature?, hsignature, h⟩ := query_bind_eq_ok.1 h
  have hany := Except.ok.inj h
  cases signature? with
  | none => exact absurd hany Bool.false_ne_true
  | some signature => exact ⟨entry, signature, found_eq_ok.1 hentry, hsignature, hany⟩

/-- The function that a call means takes its arguments. -/
theorem takes_of_resolve? {program : Program} {name : String} {arguments : List TypeRef}
    {function : FunctionRef} (h : program.resolve? name arguments = .ok (some function)) :
    program.Takes function arguments := by
  rw [resolve?] at h
  obtain ⟨found?, hexact, h⟩ := query_bind_eq_ok.1 h
  cases found? with
  | some found =>
    obtain rfl : found = function := Option.some.inj (Except.ok.inj h)
    obtain ⟨entry, signature, hentry, hsignature, htakes⟩ :=
      exists_of_functionAccepts (holds_of_firstSuch? hexact)
    exact ⟨entry, signature, hentry, hsignature, .inl htakes⟩
  | none =>
    obtain ⟨entry, signature, hentry, hsignature, htakes⟩ :=
      exists_of_functionAccepts (holds_of_firstSuch? h)
    exact ⟨entry, signature, hentry, hsignature, .inr htakes⟩

/-- What a global is called tells its literal. -/
theorem Laid.lookup_globals {program : Program} {layout : Outline InstructionRef}
    (h : program.Laid layout) {name : String} {ref : GlobalRef} {literal : Literal}
    (hnamed : program.globalNamed? name = some ref)
    (hbinding : layout.globals[ref.index]? = some (name, literal)) :
    layout.globals.lookup name = some literal := by
  cases hlookup : layout.globals.lookup name with
  | none =>
    have hother := List.lookup_eq_none_iff.1 hlookup _ (List.mem_of_getElem? hbinding)
    exact absurd hother (by simp)
  | some other =>
    obtain ⟨front, back, hglobals, -⟩ := List.lookup_eq_some_iff.1 hlookup
    -- the table finds no global but one, so both stand at one place
    have hother : layout.globals[(⟨front.length⟩ : GlobalRef).index]? = some (name, other) := by
      rw [hglobals]
      simp
    obtain rfl : ref = ⟨front.length⟩ :=
      Option.some.inj (hnamed.symm.trans ((h.globalNames name _).2 ⟨other, hother⟩))
    obtain ⟨-, rfl⟩ := Prod.mk.inj (Option.some.inj (hbinding.symm.trans hother))
    rfl

end Program

/-- A constant that has been read is the literal that its text denotes. -/
theorem Constant.ofText?_of_ofText {type : TypeRef} {name text : String} {constant : Constant}
    (h : Constant.ofText type name text = .ok constant) :
    Literal.ofText? name text = some constant.literal := by
  unfold ofText at h
  split at h
  · split at h
    · next value hvalue =>
      obtain rfl := Except.ok.inj h
      rw [Literal.ofText?, hvalue]
      rfl
    · cases h
  · obtain rfl := Except.ok.inj h
    rfl
  · cases h

namespace Program

/-! ## What is built -/

/-- What reading along a line builds: the program has grown, by `count` instructions, and is still
one that reading leaves. -/
structure Builds (program after : Program) (count : Nat) : Prop where
  /-- The program has grown. -/
  grows : program.Grows after
  /-- Reading leaves such programs. -/
  read : after.Read
  /-- So many instructions are new. -/
  size : after.instructions.size = program.instructions.size + count

namespace Builds

variable {program after further : Program} {count more : Nat}

/-- Nothing is built as long as the program stays. -/
theorem of_eq (h : program.Read) (hsame : after = program) : program.Builds after 0 := by
  subst hsame
  exact ⟨.refl after, h, rfl⟩

/-- Instructions built one after the other are counted together. -/
theorem trans (first : program.Builds after count) (second : after.Builds further more) :
    program.Builds further (count + more) where
  grows := first.grows.trans second.grows
  read := second.read
  size := by rw [second.size, first.size, Nat.add_assoc]

/-- The next instruction is the same as long as none is created. -/
theorem nextRef_eq (h : program.Builds after 0) :
    after.instructions.nextRef = program.instructions.nextRef := by
  rw [Arena.nextRef, h.size, Nat.add_zero]
  rfl

/-- No layout notices what is built along a line. -/
theorem laid (h : program.Builds after count) {layout : Outline InstructionRef}
    (hlaid : program.Laid layout) : after.Laid layout := hlaid.grows h.grows

end Builds

end Program

namespace Program

/-- A new instruction gives the result that a producer tells of. -/
def Produces (program : Program) (prototypes : List Prototype) (ref : InstructionRef)
    (written : Producer String) : Prop :=
  ∃ operation producer, program.IsNew ref operation ∧ operation.isProducer ∧
    written.resolve prototypes = some producer ∧ program.ProducerIs operation producer

/-- A program has grown by the instruction that a line says. -/
structure Says (program after : Program) (prototypes : List Prototype) (ref : InstructionRef)
    (written : Statement String) : Prop where
  /-- The program has grown. -/
  grows : program.Grows after
  /-- Reading leaves such programs. -/
  read : after.Read
  /-- The new instructions are the one that the line says and the one under it. -/
  refs : after.instructions.refs = program.instructions.refs ++ after.unfolded ref
  /-- The instruction is what the line says, its callee found among the prototypes. -/
  is : ∃ statement, written.resolve prototypes = some statement ∧ after.StatementIs ref statement
  /-- The instruction is in no chain, and no operand. -/
  new : ∃ operation, after.IsNew ref operation

end Program

end ChainIR
