import Mathlib
import ChainIR.Proofs.Reading.Described
import ChainIR.Proofs.Reading.Invariant

/-! # What reading has checked

Reading checks a source line by line, against the program as it is at each line. What it has
checked still holds at the end of the source (`Program.Checked`): a call has a callee that takes
its arguments, a pointer to a global has the type of the global, a constant has the type of its
literal, the result of an instruction is what a register is set to and nothing else, and a function
has a name for each parameter, unless it is a builtin function that no header has named
(`Reading.checked_of_ok`). -/

namespace ChainIR

/-! ## What has been checked -/

/-- The shape of the type of a literal. -/
def Literal.shape : Literal → TypeShape
  | num _ => .num
  | str _ => .str

namespace Program

/-- A constant is a number of type `num` or a string of type `str`. -/
def HasConstant (program : Program) (constant : Constant) : Prop :=
  program.types.get? constant.type = some ⟨constant.literal.typeName, constant.literal.shape⟩

/-- What reading has checked of a program; `headers` are the functions that headers have named. -/
structure Checked (program : Program) (headers : List Prototype) : Prop where
  /-- The arguments of a call are registers, pointers to globals and literals, and its callee takes
  them: exactly these, or as a variadic one whose fixed parameters stand in front of them. -/
  calls : ∀ ref entry callee arguments, program.instructions.get? ref = some entry →
    entry.operation = .call callee arguments →
    ∃ types function signature, List.Forall₂ program.HasOperand arguments types ∧
      arguments.mapM program.valueType = .ok (types.map some) ∧
      program.functions.get? callee = some function ∧
      program.signature? function.type = .ok (some signature) ∧
      (signature.variadic = false ∧ signature.params = types ∨
        signature.variadic = true ∧ signature.params <+: types)
  /-- A pointer has the name of a global, and the type of its initial constant. -/
  pointers : ∀ ref name type, program.values.get? ref = some (.globalPointer name type) →
    ∃ global entry, program.globalNamed? name = some global ∧
      program.globals.get? global = some entry ∧ entry.name = name ∧ entry.initial.type = type
  /-- Constants have the types of their literals. -/
  constants : ∀ ref constant, program.values.get? ref = some (.constant constant) →
    program.HasConstant constant
  /-- So have the initial constants of globals. -/
  initials : ∀ ref entry, program.globals.get? ref = some entry →
    program.HasConstant entry.initial
  /-- Whatever has a result is a call, an allocation or a load, and it is in no chain; so an
  instruction of a chain is no operand. -/
  results : ∀ value inner, program.values.get? value = some (.result inner) →
    ∃ entry, program.instructions.get? inner = some entry ∧ entry.operation.isProducer ∧
      ∀ label refs, program.chain label = .ok refs → inner ∉ refs
  /-- A result is the operand of an instruction that sets a register, and of no other. -/
  users : ∀ ref entry value inner, program.instructions.get? ref = some entry →
    value ∈ entry.operation.operands → program.values.get? value = some (.result inner) →
    ∃ name, entry.operation = .set name value
  /-- A function has a function type, and a name for each parameter, or it has no names, and is a
  builtin function that no header has named. -/
  functions : ∀ ref entry, program.functions.get? ref = some entry →
    ∃ signature, program.signature? entry.type = .ok (some signature) ∧
      (entry.params.length = signature.params.length ∨
        entry.params = [] ∧ ref.index < builtinCount ∧
          ∃ prototype, entry.name = prototype.name ∧ program.PrototypeIs entry.type prototype ∧
            prototype ∉ headers)

/-! ## Checks that hold of a program that has been read -/

/-- A type of the name of the type of a literal is the type of the literal. -/
theorem Interned.hasConstant {program : Program} (h : program.Interned) {constant : Constant}
    (htype : program.typeName constant.type = .ok constant.literal.typeName) :
    program.HasConstant constant := by
  obtain ⟨type, literal⟩ := constant
  cases literal with
  | num value =>
    have hnum : TypeTree.num.name = "num" := by rw [TypeTree.name]
    obtain ⟨shape, hentry, hshape⟩ := h.hasShape_of_typeName (htype.trans (congrArg _ hnum.symm))
    cases shape with
    | num => rwa [hnum] at hentry
    | void | chr | str | array | function => exact hshape.elim
  | str text =>
    have hstr : TypeTree.str.name = "str" := by rw [TypeTree.name]
    obtain ⟨shape, hentry, hshape⟩ := h.hasShape_of_typeName (htype.trans (congrArg _ hstr.symm))
    cases shape with
    | str => rwa [hstr] at hentry
    | void | num | chr | array | function => exact hshape.elim

/-- The types of operands that stand for themselves. -/
theorem mapM_valueType_eq {program : Program} {refs : List ValueRef} {types : List TypeRef}
    (h : List.Forall₂ program.HasOperand refs types) :
    refs.mapM program.valueType = .ok (types.map some) := by
  induction h with
  | nil => rfl
  | cons hfirst _ ih =>
    rw [List.mapM_cons, hfirst.valueType_eq, ih]
    rfl

/-- Each of the operands has a type. -/
theorem exists_hasOperand {program : Program} {refs : List ValueRef} {types : List TypeRef}
    (h : List.Forall₂ program.HasOperand refs types) :
    ∀ ref ∈ refs, ∃ type, program.HasOperand ref type := by
  induction h with
  | nil => exact fun ref hmem => absurd hmem List.not_mem_nil
  | cons hfirst _ ih =>
    intro ref hmem
    rcases List.mem_cons.1 hmem with rfl | hrest
    · exact ⟨_, hfirst⟩
    · exact ih ref hrest

/-- What stands for itself is no result. -/
theorem HasOperand.ne_result {program : Program} {ref : ValueRef} {type : TypeRef}
    (h : program.HasOperand ref type) (inner : InstructionRef) :
    program.values.get? ref ≠ some (.result inner) := by
  obtain ⟨value, hvalue, htype⟩ := h
  rw [hvalue]
  rintro ⟨⟩
  cases htype

/-- Arguments that a callee takes are its parameters, or behind its fixed parameters there are
more. -/
theorem Takes.exists_signature {program : Program} {callee : FunctionRef} {types : List TypeRef}
    (h : program.Takes callee types) :
    ∃ function signature, program.functions.get? callee = some function ∧
      program.signature? function.type = .ok (some signature) ∧
      (signature.variadic = false ∧ signature.params = types ∨
        signature.variadic = true ∧ signature.params <+: types) := by
  obtain ⟨function, signature, hfunction, hsignature, htakes⟩ := h
  refine ⟨function, signature, hfunction, hsignature, htakes.imp (fun hexact => ?_) fun hfront => ?_⟩
  · simpa [Signature.takesExactly] using hexact
  · simpa [Signature.takesVariadically] using hfront

/-- A result is the operand of an instruction that sets a register. -/
theorem AsRead.set_of_mem_operands {program : Program} (h : program.AsRead)
    {ref : InstructionRef} {entry : Instruction}
    (hentry : program.instructions.get? ref = some entry) {value : ValueRef}
    (hmem : value ∈ entry.operation.operands) {inner : InstructionRef}
    (hvalue : program.values.get? value = some (.result inner)) :
    ∃ name, entry.operation = .set name value := by
  have hadmits := h.operations ref entry hentry
  -- the operands of all other instructions stand for themselves
  have howned : (∀ other ∈ entry.operation.operands, ∃ type, program.HasOperand other type) →
      ∃ name, entry.operation = .set name value := by
    intro howned
    obtain ⟨type, htype⟩ := howned value hmem
    exact absurd hvalue (htype.ne_result inner)
  cases hoperation : entry.operation with
  | set name other =>
    rw [hoperation] at hmem
    obtain rfl := List.mem_singleton.1 hmem
    exact ⟨name, rfl⟩
  | call callee arguments =>
    -- the arguments have been typed to find the callee
    rw [hoperation] at hadmits howned
    obtain ⟨types, harguments, -⟩ := hadmits
    exact howned (exists_hasOperand harguments)
  | ret | alloc | store | jump | branch | load =>
    rw [hoperation] at hadmits howned
    exact howned hadmits

/-- A global that is found by a name has the name. -/
theorem Laid.name_of_globalNamed? {program : Program} {layout : Outline InstructionRef}
    (h : program.Laid layout) {name : String} {global : GlobalRef} {entry : Global}
    (hnamed : program.globalNamed? name = some global)
    (hentry : program.globals.get? global = some entry) : entry.name = name := by
  obtain ⟨binding, hbinding, his⟩ := h.globals global entry hentry
  obtain ⟨literal, hname⟩ := (h.globalNames name global).1 hnamed
  -- one binding stands at one place
  obtain rfl := Option.some.inj (hbinding.symm.trans hname)
  exact his.name

end Program

namespace Survey.Describes

variable {survey : Survey} {position : Position} {program : Program}
  {layout : Outline InstructionRef} {made : List (InstructionLine × InstructionRef)}
  (h : survey.Describes position program layout made)

include h

/-- A function of a program that has been read has a name for each parameter, or it has none, and
is a builtin function that no header has named. -/
theorem exists_signature {ref : FunctionRef} {entry : Function}
    (hentry : program.functions.get? ref = some entry) :
    ∃ signature, program.signature? entry.type = .ok (some signature) ∧
      (entry.params.length = signature.params.length ∨
        entry.params = [] ∧ ref.index < Program.builtinCount ∧
          ∃ prototype, entry.name = prototype.name ∧ program.PrototypeIs entry.type prototype ∧
            prototype ∉ survey.headers) := by
  obtain ⟨routine, hroutine, his⟩ := h.formed.functions ref entry hentry
  obtain ⟨signature, hsignature, -, hparams, -⟩ := his.type.signature?_eq
  refine ⟨signature, hsignature, ?_⟩
  rw [his.params, hparams.length_eq]
  rcases h.named ref.index routine hroutine with hnames | ⟨hnone, hbuiltin, hheaders⟩
  · exact .inl hnames
  · exact .inr ⟨hnone, hbuiltin, routine.prototype, his.name, his.type, hheaders⟩

/-- What has been checked along the way holds of the program. -/
theorem checked : program.Checked survey.headers where
  calls ref entry callee arguments hentry hcall := by
    have hadmits := h.read.operations ref entry hentry
    rw [hcall] at hadmits
    obtain ⟨types, harguments, htakes⟩ := hadmits
    obtain ⟨function, signature, hfunction⟩ := htakes.exists_signature
    exact ⟨types, function, signature, harguments, Program.mapM_valueType_eq harguments, hfunction⟩
  pointers ref name type hvalue := by
    obtain ⟨global, entry, hnamed, hentry, htype⟩ := h.read.values ref _ hvalue
    exact ⟨global, entry, hnamed, hentry, h.formed.toLaid.name_of_globalNamed? hnamed hentry, htype⟩
  constants ref constant hvalue := by
    obtain ⟨layout', hbuilt⟩ := h.read.requested.exists_built
    exact hbuilt.interned.hasConstant (hbuilt.constants ref constant hvalue)
  initials ref entry hentry := by
    obtain ⟨binding, -, his⟩ := h.formed.globals ref entry hentry
    refine h.formed.interned.hasConstant ?_
    rw [his.literal]
    exact his.type
  results value inner hvalue := by
    obtain ⟨entry, hentry, hlabel, hproducer⟩ := h.read.values value _ hvalue
    refine ⟨entry, hentry, hproducer, fun label refs hchain hmem => ?_⟩
    -- an instruction of a chain knows the label of the chain
    obtain ⟨layout', hbuilt⟩ := h.read.requested.exists_built
    obtain ⟨chains, hlinks⟩ := hbuilt.links
    rw [hlinks.eq_of_chain hchain, hlinks.mem_iff hentry, hlabel] at hmem
    cases hmem
  users ref entry value inner hentry hmem hvalue :=
    h.read.set_of_mem_operands hentry hmem hvalue
  functions ref entry hentry := h.exists_signature hentry

end Survey.Describes

/-! ## Accepted sources -/

namespace Reading

/-- **What reading checks line by line holds of the program** that an accepted source gives. -/
theorem checked_of_ok {source : Source} {program : Program}
    (h : (ofSource source).result = .ok program) :
    ∃ survey, Survey.ofSource? source = some survey ∧ program.Checked survey.headers := by
  obtain ⟨survey, position, layout, made, hsurvey, hdescribes⟩ := exists_survey_of_ok h
  exact ⟨survey, hsurvey, hdescribes.checked⟩

/-- A source in which a register is set to the result of a call with a global. -/
def globalCallSource : String :=
  "global $text const str \"1\"\ndef num f\n\t%x call num $text\n\tret %x num\nenddef\n"

/-- The callee of the call takes the type of the global, and the result of the call is in no
chain. -/
theorem checked_globalCall : ∃ program type function signature,
    (ofText globalCallSource).result = .ok program ∧
      program.values.get? ⟨0⟩ = some (.globalPointer "text" type) ∧
      program.functions.get? ⟨10⟩ = some function ∧
      program.signature? function.type = .ok (some signature) ∧ signature.params <+: [type] ∧
      ∀ label refs, program.chain label = .ok refs → ⟨0⟩ ∉ refs := by
  have haccepted : accepts globalCallSource fun program =>
      (program.instructions.get? ⟨0⟩).any (fun entry => entry.operation = .call ⟨10⟩ [⟨0⟩]) &&
        (program.values.get? ⟨0⟩).any (fun value =>
          value.ownType?.any fun type => value = .globalPointer "text" type) &&
        program.values.get? ⟨1⟩ = some (.result ⟨0⟩) := by decide +kernel
  obtain ⟨program, hread, htest⟩ := exists_of_accepts haccepted
  simp only [Bool.and_eq_true, Option.any_eq_true, decide_eq_true_eq] at htest
  obtain ⟨⟨⟨call, hcall, hoperation⟩, value, hvalue, type, htype, rfl⟩, hresult⟩ := htest
  obtain ⟨survey, -, hchecked⟩ := checked_of_ok hread
  obtain ⟨types, function, signature, harguments, -, hfunction, hsignature, htakes⟩ :=
    hchecked.calls ⟨0⟩ call ⟨10⟩ [⟨0⟩] hcall hoperation
  obtain ⟨other, rest, ⟨same, hsame, hother⟩, hrest, rfl⟩ :=
    List.forall₂_cons_left_iff.1 harguments
  obtain rfl := List.forall₂_nil_left_iff.1 hrest
  obtain rfl := Option.some.inj (hvalue.symm.trans hsame)
  -- the list of arguments has one value, whose type is the one found
  obtain rfl : type = other := Option.some.inj hother
  obtain ⟨-, -, -, hfree⟩ := hchecked.results ⟨1⟩ ⟨0⟩ hresult
  refine ⟨program, type, function, signature, hread, hvalue, hfunction, hsignature, ?_, hfree⟩
  rcases htakes with ⟨-, hexact⟩ | ⟨-, hfront⟩
  · rw [hexact]
  · exact hfront

end Reading

end ChainIR
