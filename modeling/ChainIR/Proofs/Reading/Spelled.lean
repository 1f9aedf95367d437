import Mathlib
import ChainIR.Proofs.Reading.Text

/-! # Programs that can be read back

A program is `Program.Spelled` if its names are words that a source can hold and its types are
made of arrays and primitive types. The text of such a program can be read, up to the callees of
its calls (`Program.ShownBy.readable`). -/

namespace ChainIR

namespace Program

/-- A type that is void, a primitive type, or an array of such a type. -/
def IsPlainType (program : Program) (type : TypeRef) : Prop :=
  ∃ name, program.typeName type = .ok name ∧ IsTypeName name

/-- The names and types in an operation can be read back. -/
def SpelledOperation (target : String → Prop) (program : Program) : Operation → Prop
  | .set name _ => Unbroken name
  | .alloc type => program.IsPlainType type
  | .jump name => target name
  | .branch _ whenTrue whenFalse => target whenTrue ∧ target whenFalse
  | _ => True

/-- The names and types in a program can be read back; what jump targets may be is a parameter. -/
structure Spelled (target : String → Prop) (program : Program) : Prop where
  /-- Functions and parameters have plain names. -/
  functions : ∀ entry ∈ program.functions.entries,
    Plain entry.name ∧ ∀ name ∈ entry.params, Plain name
  /-- Functions have plain types. -/
  signatures : ∀ entry ∈ program.functions.entries, ∀ signature,
    program.signature? entry.type = .ok (some signature) →
      program.IsPlainType signature.result ∧ ∀ param ∈ signature.params, program.IsPlainType param
  /-- The names of globals are not broken by blanks. -/
  globals : ∀ entry ∈ program.globals.entries, Unbroken entry.name
  /-- Neither are the names of labels. -/
  labels : ∀ entry ∈ program.labels.entries, Unbroken entry.name
  /-- Neither are the names of registers, which have plain types. -/
  registers : ∀ name type, .register name type ∈ program.values.entries →
    Unbroken name ∧ program.IsPlainType type
  /-- Operations. -/
  operations : ∀ entry ∈ program.instructions.entries,
    program.SpelledOperation target entry.operation

variable {target : String → Prop} {program : Program} {outline : Outline (Statement Callee)}

/-- A plain type has the name of a plain type. -/
theorem IsPlainType.isTypeName {type : TypeRef} {name : String} (h : program.IsPlainType type)
    (hname : program.typeName type = .ok name) : IsTypeName name := by
  obtain ⟨name', hname', hplain⟩ := h
  obtain rfl : name' = name := by simpa [hname'] using hname
  exact hplain

namespace Spelled

variable (h : program.Spelled target)
include h

/-- A function and its parameters have plain names. -/
theorem function {ref : FunctionRef} {entry : Function}
    (hentry : program.functions.get? ref = some entry) :
    Plain entry.name ∧ ∀ name ∈ entry.params, Plain name :=
  h.functions entry (Array.mem_of_getElem? hentry)

/-- The name of a global is unbroken. -/
theorem global {ref : GlobalRef} {entry : Global}
    (hentry : program.globals.get? ref = some entry) : Unbroken entry.name :=
  h.globals entry (Array.mem_of_getElem? hentry)

/-- The name of a label is unbroken. -/
theorem label {ref : LabelRef} {entry : Label} (hentry : program.labels.get? ref = some entry) :
    Unbroken entry.name :=
  h.labels entry (Array.mem_of_getElem? hentry)

/-- The names in an instruction are spelled well. -/
theorem operation {ref : InstructionRef} {entry : Instruction}
    (hentry : program.instructions.get? ref = some entry) :
    program.SpelledOperation target entry.operation :=
  h.operations entry (Array.mem_of_getElem? hentry)

/-- An operand can be read back. -/
theorem operand {ref : ValueRef} {operand : Operand} (his : program.OperandIs ref operand) :
    operand.Spelled := by
  cases operand with
  | register name type =>
    obtain ⟨typeRef, hvalue, htype⟩ := his
    obtain ⟨hname, hplain⟩ := h.registers name typeRef (Array.mem_of_getElem? hvalue)
    exact ⟨hname, hplain.isTypeName htype⟩
  | global name type =>
    obtain ⟨ref, entry, hentry, rfl, -, -⟩ := his
    exact h.global hentry
  | constant literal => trivial

/-- Operands can be read back. -/
theorem operands {refs : List ValueRef} {operands : List Operand}
    (his : List.Forall₂ program.OperandIs refs operands) :
    ∀ operand ∈ operands, operand.Spelled := by
  intro operand hmem
  obtain ⟨ref, -, hoperand⟩ := exists_of_forall₂ his hmem
  exact h.operand hoperand

/-- So can an instruction with a result, and the name of its callee. -/
theorem producer {operation : Operation} {producer : Producer Callee}
    (hoperation : program.SpelledOperation target operation)
    (his : program.ProducerIs operation producer) :
    producer.Spelled ∧ ∀ call ∈ producer.call?, Plain call.1.name := by
  cases producer with
  | call callee arguments =>
    obtain ⟨values, -, ⟨entry, hentry, hname⟩, harguments⟩ := his
    refine ⟨h.operands harguments, fun call hcall => ?_⟩
    obtain rfl := Option.some.inj hcall
    exact hname ▸ (h.function hentry).1
  | alloc type =>
    obtain ⟨typeRef, rfl, htype⟩ := his
    exact ⟨hoperation.isTypeName htype, nofun⟩
  | load pointer =>
    obtain ⟨value, -, hpointer⟩ := his
    exact ⟨h.operand hpointer, nofun⟩

/-- So can an instruction. -/
theorem statement {ref : InstructionRef} {statement : Statement Callee}
    (his : program.StatementIs ref statement) :
    statement.Spelled target ∧ ∀ call ∈ statement.call?, Plain call.1.name := by
  obtain ⟨entry, hentry, his⟩ := his
  have hoperation := h.operation hentry
  cases statement with
  | produce producer => exact h.producer hoperation his
  | assign name producer =>
    obtain ⟨value, inner, innerEntry, hset, -, hinner, hproducer⟩ := his
    rw [hset] at hoperation
    obtain ⟨hspelled, hcallee⟩ := h.producer (h.operation hinner) hproducer
    exact ⟨⟨hoperation, hspelled⟩, hcallee⟩
  | set name operand =>
    obtain ⟨value, hset, hoperand⟩ := his
    rw [hset] at hoperation
    exact ⟨⟨hoperation, h.operand hoperand⟩, nofun⟩
  | ret operand =>
    refine ⟨fun value hvalue => ?_, nofun⟩
    obtain rfl := Option.mem_def.1 hvalue
    obtain ⟨ref, -, hoperand⟩ := his
    exact h.operand hoperand
  | store pointer operand =>
    obtain ⟨pointerRef, ref, -, hpointer, hoperand⟩ := his
    exact ⟨⟨h.operand hpointer, h.operand hoperand⟩, nofun⟩
  | jump target =>
    have hjump : entry.operation = .jump target := his
    rw [hjump] at hoperation
    exact ⟨hoperation, nofun⟩
  | branch condition whenTrue whenFalse =>
    obtain ⟨ref, hbranch, hcondition⟩ := his
    rw [hbranch] at hoperation
    exact ⟨⟨h.operand hcondition, hoperation⟩, nofun⟩

end Spelled

/-- Names that can be read back can be told from other words. -/
theorem Spelled.plain (h : program.Spelled IsTarget) : program.Spelled Plain where
  functions := h.functions
  signatures := h.signatures
  globals := h.globals
  labels := h.labels
  registers := h.registers
  operations entry hentry := by
    have hoperation := h.operations entry hentry
    cases hequal : entry.operation with
    | jump name =>
      rw [hequal] at hoperation
      exact IsTarget.plain hoperation
    | branch condition whenTrue whenFalse =>
      rw [hequal] at hoperation
      exact ⟨hoperation.1.plain, hoperation.2.plain⟩
    | _ =>
      rw [hequal] at hoperation
      exact hoperation

/-! ## Globals that are named -/

/-- The globals that an operand names are there. -/
theorem OperandIs.known {layout : Outline InstructionRef} (hlaid : program.Laid layout)
    {ref : ValueRef} {operand : Operand} (his : program.OperandIs ref operand) :
    operand.Known layout.globals := by
  cases operand with
  | register name type => trivial
  | global name type =>
    obtain ⟨global, entry, hentry, hname, htype, -⟩ := his
    obtain ⟨binding, hbinding, hglobal⟩ := hlaid.globals global entry hentry
    refine ⟨binding.2, ?_, ?_⟩
    · rw [← hname, hglobal.name]
      exact List.mem_of_getElem? hbinding
    · simpa [hglobal.type] using htype
  | constant literal => trivial

/-- The globals that the operands of an instruction with a result name are there. -/
theorem ProducerIs.known {layout : Outline InstructionRef} (hlaid : program.Laid layout)
    {operation : Operation} {producer : Producer Callee}
    (his : program.ProducerIs operation producer) : producer.Known layout.globals := by
  cases producer with
  | call callee arguments =>
    obtain ⟨values, -, -, harguments⟩ := his
    intro operand hmem
    obtain ⟨ref, -, hoperand⟩ := exists_of_forall₂ harguments hmem
    exact hoperand.known hlaid
  | alloc type => trivial
  | load pointer =>
    obtain ⟨value, -, hpointer⟩ := his
    exact hpointer.known hlaid

/-- The globals that an instruction names are there. -/
theorem StatementIs.known {layout : Outline InstructionRef} (hlaid : program.Laid layout)
    {ref : InstructionRef} {statement : Statement Callee}
    (his : program.StatementIs ref statement) : statement.Known layout.globals := by
  obtain ⟨entry, hentry, his⟩ := his
  cases statement with
  | produce producer => exact ProducerIs.known hlaid his
  | assign name producer =>
    obtain ⟨value, inner, innerEntry, -, -, -, hproducer⟩ := his
    exact hproducer.known hlaid
  | set name operand =>
    obtain ⟨value, -, hoperand⟩ := his
    exact hoperand.known hlaid
  | ret operand =>
    intro value hvalue
    obtain rfl := Option.mem_def.1 hvalue
    obtain ⟨ref, -, hoperand⟩ := his
    exact hoperand.known hlaid
  | store pointer operand =>
    obtain ⟨pointerRef, ref, -, hpointer, hoperand⟩ := his
    exact ⟨hpointer.known hlaid, hoperand.known hlaid⟩
  | jump target => trivial
  | branch condition whenTrue whenFalse =>
    obtain ⟨ref, -, hcondition⟩ := his
    exact hcondition.known hlaid

end Program

/-! ## Callees left out -/

/-- What can be read of a statement does not depend on its callee. -/
theorem Statement.readable_written {target : String → Prop} {globals : List (String × Literal)}
    {statement : Statement Callee}
    (hspelled : statement.Spelled target ∧ ∀ call ∈ statement.call?, Plain call.1.name)
    (hknown : statement.Known globals) : statement.written.Readable target globals := by
  -- a call is written with the name of its callee alone
  have hproducer : ∀ producer : Producer Callee, (∀ call ∈ producer.call?, Plain call.1.name) →
      ∀ call ∈ (producer.map Callee.name).call?, Plain call.1 := by
    intro producer hcallee call hcall
    cases producer with
    | call callee arguments =>
      obtain rfl := Option.some.inj hcall
      exact hcallee _ rfl
    | alloc type => exact nomatch hcall
    | load pointer => exact nomatch hcall
  cases statement with
  | produce producer =>
    refine ⟨?_, hproducer producer hspelled.2, ?_⟩
    · cases producer <;> exact hspelled.1
    · cases producer <;> exact hknown
  | assign name producer =>
    refine ⟨?_, hproducer producer hspelled.2, ?_⟩
    · cases producer <;> exact hspelled.1
    · cases producer <;> exact hknown
  | set name operand => exact ⟨hspelled.1, nofun, hknown⟩
  | ret operand => exact ⟨hspelled.1, nofun, hknown⟩
  | store pointer operand => exact ⟨hspelled.1, nofun, hknown⟩
  | jump target => exact ⟨hspelled.1, nofun, hknown⟩
  | branch condition whenTrue whenFalse => exact ⟨hspelled.1, nofun, hknown⟩

namespace Program

variable {target : String → Prop} {program : Program} {outline : Outline (Statement Callee)}

/-- Every global that is shown is there. -/
theorem Laid.global_of_binding {layout : Outline InstructionRef} (h : program.Laid layout)
    {index : Nat} {binding : String × Literal} (hbinding : layout.globals[index]? = some binding) :
    ∃ entry, program.globals.get? ⟨index⟩ = some entry ∧
      program.GlobalIs ⟨index⟩ entry binding := by
  have hlt : index < program.globals.size := by
    rw [h.globalCount]
    exact (List.getElem?_eq_some_iff.1 hbinding).1
  obtain ⟨entry, hentry⟩ :=
    Option.isSome_iff_exists.1 ((Arena.get?_isSome_iff program.globals ⟨index⟩).2 hlt)
  obtain ⟨binding', hbinding', his⟩ := h.globals ⟨index⟩ entry hentry
  obtain rfl := Option.some.inj (hbinding.symm.trans hbinding')
  exact ⟨entry, hentry, his⟩

/-- No two globals have one name. -/
theorem Laid.globals_nodup {layout : Outline InstructionRef} (h : program.Laid layout) :
    (layout.globals.map Prod.fst).Nodup := by
  rw [List.nodup_iff_injective_get]
  intro left right hsame
  have hlookup : ∀ index : Fin (layout.globals.map Prod.fst).length,
      program.globalNamed? ((layout.globals.map Prod.fst).get index) = some ⟨index⟩ := by
    intro index
    have hlt : index.1 < layout.globals.length := by simpa using index.2
    refine (h.globalNames _ _).2 ⟨layout.globals[index.1].2, ?_⟩
    rw [List.getElem?_eq_getElem hlt]
    simp
  have hrefs := (hlookup left).symm.trans (hsame ▸ hlookup right)
  exact Fin.ext (congrArg Ref.index (Option.some.inj hrefs))

/-- A function with names that can be read back shows a prototype that can. -/
theorem Spelled.prototype (h : program.Spelled target) {ref : FunctionRef} {entry : Function}
    (hentry : program.functions.get? ref = some entry) {prototype : Prototype}
    (hname : entry.name = prototype.name) (htype : program.PrototypeIs entry.type prototype) :
    prototype.Spelled := by
  obtain ⟨signature, hsignature, hresult, hparams, -⟩ := htype.signature?_eq
  obtain ⟨hplain, hplains⟩ := h.signatures entry (Array.mem_of_getElem? hentry) signature hsignature
  refine ⟨hname ▸ (h.function hentry).1, hplain.isTypeName hresult, fun type hmem => ?_⟩
  obtain ⟨param, hparam, htype⟩ := exists_of_forall₂ hparams hmem
  exact (hplains param hparam).isTypeName htype

/-- A label with a name that can be read back shows a block that can be read. -/
theorem Spelled.block (h : program.Spelled target) {layout : Outline InstructionRef}
    (hlaid : program.Laid layout) {function : FunctionRef} {label : LabelRef}
    {block : Block InstructionRef} {shown : Block (Statement Callee)}
    (hlabel : program.LabelIs function label block)
    (hrel : Block.Rel program.StatementIs block shown) (hfilled : block.statements ≠ []) :
    (shown.map Statement.written).Readable target layout.globals where
  name := by
    obtain ⟨entry, hentry, hname, -⟩ := hlabel.entry
    show Unbroken shown.name
    rw [← hrel.1, ← hname]
    exact h.label hentry
  filled := by
    intro hnil
    have hlength := hrel.2.length_eq
    rw [List.map_eq_nil_iff.1 hnil, List.length_nil, List.length_eq_zero_iff] at hlength
    exact hfilled hlength
  statements statement hmem := by
    obtain ⟨resolved, hresolved, rfl⟩ := List.mem_map.1 hmem
    obtain ⟨ref, -, his⟩ := exists_of_forall₂ hrel.2 hresolved
    exact Statement.readable_written (h.statement his) (his.known hlaid)

/-- **Programs that can be read back**: what a program with names that can be read back shows can be
read. -/
theorem ShownBy.readable (hshown : program.ShownBy outline) (hspelled : program.Spelled target)
    (hbuiltins : builtinPrototypes <+: outline.prototypes) :
    (outline.map Statement.written).Readable target := by
  have hprototypes := hshown.prototypes_nodup
  have hlabels := hshown.labels_nodup
  obtain ⟨layout, hshows⟩ := hshown
  have hglobals := hshows.statements.globals
  have hsame : (outline.map Statement.written).prototypes = outline.prototypes := by
    rw [Outline.prototypes, Outline.map, List.map_map]
    rfl
  -- each name that is shown is one of an entry of the program, which is found by its place
  refine ⟨fun binding hmem => ?_, ?_, hsame ▸ hbuiltins, hsame ▸ hprototypes,
    fun written hmem => ?_⟩
  · obtain ⟨index, hindex⟩ := List.getElem?_of_mem hmem
    obtain ⟨entry, hentry, his⟩ := hshows.global_of_binding
      (show layout.globals[index]? = some binding by rw [hglobals]; exact hindex)
    exact his.name ▸ hspelled.global hentry
  · show (outline.globals.map Prod.fst).Nodup
    rw [← hglobals]
    exact hshows.globals_nodup
  · obtain ⟨routine, hroutine, rfl⟩ := List.mem_map.1 hmem
    obtain ⟨laid, hlaid, hrel⟩ := exists_of_forall₂ hshows.statements.routines hroutine
    obtain ⟨index, hindex⟩ := List.getElem?_of_mem hlaid
    obtain ⟨entry, hentry, his⟩ := hshows.function_of_routine hindex
    refine ⟨?_, ?_, ?_, fun block hblock => ?_⟩
    · show routine.prototype.Spelled
      rw [← hrel.prototype]
      exact hspelled.prototype hentry his.name his.type
    · show ∀ name ∈ routine.params, Plain name
      rw [← hrel.params, ← his.params]
      exact (hspelled.function hentry).2
    · have hnames : (routine.map Statement.written).labels = routine.labels := by
        rw [Routine.labels, Routine.map, List.map_map]
        rfl
      exact hnames ▸ hlabels routine hroutine
    · obtain ⟨shown, hshown, rfl⟩ := List.mem_map.1 hblock
      obtain ⟨laidBlock, hlaidBlock, hrelBlock⟩ := exists_of_forall₂ hrel.blocks hshown
      obtain ⟨label, -, hlabel⟩ := exists_of_forall₂ his.labels hlaidBlock
      have hreadable := hspelled.block hshows.toLaid hlabel hrelBlock
        (hshows.filled laid hlaid laidBlock hlaidBlock)
      rwa [hglobals] at hreadable

/-! ## Checking names -/

/-- Whether a type is void or primitive. -/
def isPrimitiveType (program : Program) (type : TypeRef) : Bool :=
  (program.types.get? type).any fun entry => ["void", "num", "chr", "str"].contains entry.name

/-- Whether the names in an operation can be read back and its type is primitive. -/
def spelledSimplyIn (program : Program) : Operation → Bool
  | .set name _ => decide (Unbroken name)
  | .alloc type => program.isPrimitiveType type
  | .jump target => decide (IsTarget target)
  | .branch _ whenTrue whenFalse => decide (IsTarget whenTrue) && decide (IsTarget whenFalse)
  | _ => true

/-- Whether the names in a program can be read back and all of its types are primitive. -/
def spelledSimply (program : Program) : Bool :=
  (program.functions.entries.all fun entry =>
    decide (Plain entry.name) && entry.params.all (fun name => decide (Plain name)) &&
      match program.signature? entry.type with
      | .ok (some signature) => program.isPrimitiveType signature.result &&
          signature.params.all program.isPrimitiveType
      | _ => true) &&
  (program.globals.entries.all fun entry => decide (Unbroken entry.name)) &&
  (program.labels.entries.all fun entry => decide (Unbroken entry.name)) &&
  (program.values.entries.all fun
    | .register name type => decide (Unbroken name) && program.isPrimitiveType type
    | _ => true) &&
  program.instructions.entries.all fun entry => program.spelledSimplyIn entry.operation

/-- A primitive type is plain. -/
theorem isPlainType_of_isPrimitiveType {type : TypeRef} (h : program.isPrimitiveType type) :
    program.IsPlainType type := by
  rw [isPrimitiveType, Option.any_eq_true] at h
  obtain ⟨entry, hentry, hname⟩ := h
  rw [List.contains_iff_mem] at hname
  refine ⟨entry.name, typeName_eq_ok.2 ⟨entry, hentry, rfl⟩, ?_⟩
  generalize entry.name = name at hname
  fin_cases hname
  · exact ⟨.void, .void, by rw [TypeTree.name]⟩
  · exact ⟨.num, .num, by rw [TypeTree.name]⟩
  · exact ⟨.chr, .chr, by rw [TypeTree.name]⟩
  · exact ⟨.str, .str, by rw [TypeTree.name]⟩

/-- Names that pass the check can be read back. -/
theorem spelled_of_spelledSimply (h : program.spelledSimply) : program.Spelled IsTarget := by
  simp only [spelledSimply, Bool.and_eq_true, Array.all_eq_true_iff_forall_mem, decide_eq_true_eq,
    List.all_eq_true] at h
  obtain ⟨⟨⟨⟨hfunctions, hglobals⟩, hlabels⟩, hvalues⟩, hoperations⟩ := h
  refine ⟨fun entry hmem => (hfunctions entry hmem).1, fun entry hmem signature hsignature => ?_,
    hglobals, hlabels, fun name type hmem => ?_, fun entry hmem => ?_⟩
  · have htypes := (hfunctions entry hmem).2
    rw [hsignature] at htypes
    simp only [Bool.and_eq_true, List.all_eq_true] at htypes
    exact ⟨isPlainType_of_isPrimitiveType htypes.1, fun param hparam =>
      isPlainType_of_isPrimitiveType (htypes.2 param hparam)⟩
  · have hvalue := hvalues _ hmem
    simp only [Bool.and_eq_true, decide_eq_true_eq] at hvalue
    exact ⟨hvalue.1, isPlainType_of_isPrimitiveType hvalue.2⟩
  · have hoperation := hoperations entry hmem
    cases hop : entry.operation with
    | set name value => simpa [hop, spelledSimplyIn, SpelledOperation] using hoperation
    | alloc type =>
      rw [hop, spelledSimplyIn] at hoperation
      exact isPlainType_of_isPrimitiveType hoperation
    | jump target => simpa [hop, spelledSimplyIn, SpelledOperation] using hoperation
    | branch condition whenTrue whenFalse =>
      simpa [hop, spelledSimplyIn, SpelledOperation] using hoperation
    | call | ret | store | load => trivial

end Program

end ChainIR
