import Mathlib
import ChainIR.Proofs.Reading.Apart
import ChainIR.Proofs.Reading.Reprint

/-! # What a text tells of callees

A call is written with the name of its callee, and which overload it means was decided when its
line was read. Two programs of one text have the same functions and calls at the same places, and a
call has the same callee in both, but for one case: in one of them it means a variadic function, and
in the other a function that takes exactly its arguments and is declared behind all that the lines of
the calling function tell of (`Reading.callees_of_text_eq`).

* `Program.calleeAt?`: the callee of the call at a place of a program.
* `Program.Overrides`: an exact overload is preferred to a variadic one once it is declared.
* `Program.ReadWithout`: the lines of a function may have been read before another function was
  declared. -/

namespace ChainIR

/-! ## What stands under a label -/

namespace Routine

variable {σ τ : Type}

/-- Changing every statement changes those under a label. -/
theorem under_map (name : String) (routine : Routine σ) (change : σ → τ) :
    (routine.map change).under name = (routine.under name).map change := by
  have hname : (fun block : Block τ => block.name == name) ∘ Block.map change =
      fun block => block.name == name := rfl
  rw [under, under, map, List.find?_map, hname, Option.map_map]
  cases routine.blocks.find? fun block => block.name == name <;> rfl

/-- What stands under a label stands in a block. -/
theorem exists_block_of_mem_under {name : String} {routine : Routine σ} {statement : σ}
    (h : statement ∈ routine.under name) :
    ∃ block ∈ routine.blocks, statement ∈ block.statements := by
  rw [under] at h
  cases hfind : routine.blocks.find? fun block => block.name == name with
  | none => exact absurd h (by simp [hfind])
  | some block => exact ⟨block, List.mem_of_find?_eq_some hfind, by simpa [hfind] using h⟩

/-- Related functions have related statements under a label. -/
theorem Rel.under {related : σ → τ → Prop} {left : Routine σ} {right : Routine τ}
    (h : Rel related left right) (name : String) :
    List.Forall₂ related (left.under name) (right.under name) := by
  obtain ⟨-, -, hblocks⟩ := h
  rw [Routine.under, Routine.under]
  generalize left.blocks = blocks, right.blocks = blocks' at hblocks
  induction hblocks with
  | nil => exact .nil
  | @cons block block' _ _ hblock _ ih =>
    obtain ⟨hname, hstatements⟩ := hblock
    rw [List.find?_cons, List.find?_cons, hname]
    cases block'.name == name with
    | true => exact hstatements
    | false => exact ih

end Routine

/-- What stands at a place of the second of two related lists is related to what stands there in
the first. -/
theorem exists_of_getElem? {α β : Type} {related : α → β → Prop} {left : List α} {right : List β}
    (h : List.Forall₂ related left right) {index : Nat} {item : β}
    (hitem : right[index]? = some item) :
    ∃ other, left[index]? = some other ∧ related other item := by
  induction h generalizing index with
  | nil => exact nomatch hitem
  | @cons first first' _ _ hfirst _ ih =>
    cases index with
    | zero => exact ⟨first, rfl, Option.some.inj hitem ▸ hfirst⟩
    | succ index => exact ih hitem

namespace Program

/-! ## Calls of a program -/

/-- The callee of a call. -/
def calleeOf? : Operation → Option FunctionRef
  | .call callee _ => some callee
  | _ => none

/-- The callee of the call that an instruction is, or that it binds to a register. -/
def callee? (program : Program) (ref : InstructionRef) : Except Fault (Option FunctionRef) := do
  match (← program.instruction ref).operation with
  | .set _ value =>
    match ← program.value value with
    | .result inner => return calleeOf? (← program.instruction inner).operation
    | _ => return none
  | operation => return calleeOf? operation

/-- The callee of the call at a position under a label of a function. -/
def calleeAt? (program : Program) (function : FunctionRef) (label : String) (position : Nat) :
    Except Fault (Option FunctionRef) := do
  match (← program.chainNamed function label)[position]? with
  | some ref => program.callee? ref
  | none => return none

/-- A function with a fixed number of parameters that takes every call of a variadic one with as
many arguments, and that is declared later. -/
def Overrides (program : Program) (exact variadic : FunctionRef) : Prop :=
  variadic.index < exact.index ∧ ∃ entry entry' signature signature',
    program.functions.get? exact = some entry ∧ program.functions.get? variadic = some entry' ∧
      entry.name = entry'.name ∧ program.signature? entry.type = .ok (some signature) ∧
      program.signature? entry'.type = .ok (some signature') ∧ signature.variadic = false ∧
      signature'.variadic = true ∧ signature'.params <+: signature.params

/-- The lines of a function may have been read before another function was declared: that one is not
builtin, it is declared behind the function, and no call in the function means it or a function
behind it. -/
def ReadWithout (program : Program) (function other : FunctionRef) : Prop :=
  Program.builtinCount ≤ other.index ∧ function.index < other.index ∧
    ∀ label position callee, program.calleeAt? function label position = .ok (some callee) →
      callee.index < other.index

variable {program : Program} {layout : Outline InstructionRef}
  {outline : Outline (Statement Callee)}

/-- The callee of a call is the one that is shown. -/
theorem ProducerIs.calleeOf?_eq {operation : Operation} {producer : Producer Callee}
    (h : program.ProducerIs operation producer) :
    calleeOf? operation = producer.call?.map fun call => call.1.function := by
  cases producer with
  | call callee arguments =>
    obtain ⟨values, rfl, -⟩ := h
    rfl
  | alloc type =>
    obtain ⟨typeRef, rfl, -⟩ := h
    rfl
  | load pointer =>
    obtain ⟨value, rfl, -⟩ := h
    rfl

/-- An operand is not the result of a call. -/
theorem OperandIs.value_ne_result {ref : ValueRef} {operand : Operand}
    (h : program.OperandIs ref operand) : ∃ value, program.value ref = .ok value ∧
      ∀ inner, value ≠ .result inner := by
  cases operand with
  | register name type =>
    obtain ⟨typeRef, hvalue, -⟩ := h
    exact ⟨_, found_eq_ok.2 hvalue, nofun⟩
  | global name type =>
    obtain ⟨global, entry, -, -, -, hvalue | hvalue⟩ := h
    · exact ⟨_, found_eq_ok.2 hvalue, nofun⟩
    · exact ⟨_, found_eq_ok.2 hvalue, nofun⟩
  | constant literal =>
    obtain ⟨typeRef, hvalue, -⟩ := h
    exact ⟨_, found_eq_ok.2 hvalue, nofun⟩

/-- The callee of an instruction that binds no register. -/
theorem callee?_of_ne_set {ref : InstructionRef} {entry : Instruction}
    (hentry : program.instructions.get? ref = some entry)
    (hne : ∀ name value, entry.operation ≠ .set name value) :
    program.callee? ref = .ok (calleeOf? entry.operation) := by
  rw [callee?, show program.instruction ref = .ok entry from found_eq_ok.2 hentry]
  cases hoperation : entry.operation with
  | set name value => exact absurd hoperation (hne name value)
  | _ => simp only [bind, Except.bind, hoperation, pure, Except.pure]

/-- The callee of an instruction is the one that is shown. -/
theorem StatementIs.callee?_eq {ref : InstructionRef} {statement : Statement Callee}
    (h : program.StatementIs ref statement) :
    program.callee? ref = .ok (statement.call?.map fun call => call.1.function) := by
  obtain ⟨entry, hentry, his⟩ := h
  -- no form but `set` looks at the instruction of a value
  have hplain : ∀ operation, entry.operation = operation →
      (∀ name value, operation ≠ .set name value) →
      program.callee? ref = .ok (calleeOf? operation) := by
    rintro operation rfl hne
    exact callee?_of_ne_set hentry hne
  cases statement with
  | produce producer =>
    rw [Statement.call?, ← ProducerIs.calleeOf?_eq his]
    refine hplain _ rfl fun name value hset => ?_
    rw [hset] at his
    cases producer <;> simp [OperationIs, ProducerIs] at his
  | assign name producer =>
    obtain ⟨value, inner, innerEntry, hoperation, hvalue, hinner, hproducer⟩ := his
    simp only [callee?, show program.instruction ref = .ok _ from found_eq_ok.2 hentry, hoperation,
      show program.value value = .ok _ from found_eq_ok.2 hvalue,
      show program.instruction inner = .ok _ from found_eq_ok.2 hinner, bind, Except.bind, pure,
      Except.pure, hproducer.calleeOf?_eq, Statement.call?]
  | set name operand =>
    obtain ⟨operandRef, hoperation, hoperand⟩ := his
    obtain ⟨value, hvalue, hne⟩ := hoperand.value_ne_result
    simp only [callee?, show program.instruction ref = .ok _ from found_eq_ok.2 hentry, hoperation,
      hvalue, bind, Except.bind, pure, Except.pure, Statement.call?]
    cases value with
    | result inner => exact absurd rfl (hne inner)
    | register | globalPointer | constant | global => rfl
  | ret operand =>
    cases operand with
    | none => exact hplain _ his (by simp)
    | some operand =>
      obtain ⟨value, hoperation, -⟩ := his
      exact hplain _ hoperation (by simp)
  | store pointer operand =>
    obtain ⟨pointerValue, value, hoperation, -⟩ := his
    exact hplain _ hoperation (by simp)
  | jump target => exact hplain _ his (by simp)
  | branch condition whenTrue whenFalse =>
    obtain ⟨value, hoperation, -⟩ := his
    exact hplain _ hoperation (by simp)

/-- The callee of the call at a place is the one that is shown. -/
theorem Shows.calleeAt?_eq (h : program.Shows layout outline) {function : FunctionRef}
    {routine : Routine (Statement Callee)}
    (hroutine : outline.routines[function.index]? = some routine) (name : String)
    (position : Nat) : program.calleeAt? function name position =
      .ok (((routine.under name)[position]?.bind Statement.call?).map fun call =>
        call.1.function) := by
  obtain ⟨laid, hlaid, hrel⟩ := exists_of_getElem? h.statements.routines hroutine
  have hunder := hrel.under name
  simp only [calleeAt?, h.toLaid.chainNamed_eq hlaid, bind, Except.bind]
  cases hstatement : (routine.under name)[position]? with
  | some statement =>
    obtain ⟨ref, href, his⟩ := exists_of_getElem? hunder hstatement
    rw [href]
    exact his.callee?_eq
  | none =>
    have hlength := hunder.length_eq
    rw [List.getElem?_eq_none_iff] at hstatement
    rw [List.getElem?_eq_none (by omega)]
    rfl

/-- A call of a function that is not there has no answer. -/
theorem Laid.calleeAt?_isOk (h : program.Laid layout) {function : FunctionRef} {name : String}
    {position : Nat} {answer : Option FunctionRef}
    (hanswer : program.calleeAt? function name position = .ok answer) :
    function.index < layout.routines.length := by
  by_contra hge
  have hnone : program.functions.get? function = none := by
    rw [← Option.not_isSome_iff_eq_none, Arena.get?_isSome_iff, h.functionCount]
    exact hge
  have hfunction : program.function function = .error .dangling := by
    rw [Program.function, hnone]
    rfl
  simp [calleeAt?, chainNamed, labelNamed?, hfunction, bind, Except.bind] at hanswer

/-- A call at a place is shown there, with its callee. -/
theorem Shows.exists_call (h : program.Shows layout outline) {function callee : FunctionRef}
    {label : String} {position : Nat}
    (hcallee : program.calleeAt? function label position = .ok (some callee)) :
    ∃ routine shown arguments, outline.routines[function.index]? = some routine ∧
      (routine.under label)[position]?.bind Statement.call? = some (shown, arguments) ∧
      shown.function = callee := by
  have hlt := h.toLaid.calleeAt?_isOk hcallee
  rw [h.statements.routines.length_eq] at hlt
  have hroutine := List.getElem?_eq_getElem hlt
  rw [h.calleeAt?_eq hroutine, Except.ok.injEq] at hcallee
  obtain ⟨⟨shown, arguments⟩, hcall, hfunction⟩ := Option.map_eq_some_iff.1 hcallee
  exact ⟨_, shown, arguments, hroutine, hcall, hfunction⟩

/-- An exact overload that is found later overrides a variadic one. -/
theorem Laid.overrides (h : program.Laid layout) {exact variadic : FunctionRef}
    {prototype prototype' : Prototype} {name : String} {arguments : List String}
    (hlater : variadic.index < exact.index)
    (hprototype : layout.prototypes[exact.index]? = some prototype)
    (hexact : prototype.takesExactly name arguments)
    (hprototype' : layout.prototypes[variadic.index]? = some prototype')
    (hvariadic : prototype'.takesVariadically name arguments) :
    program.Overrides exact variadic := by
  obtain ⟨entry, hentry, hname, htype⟩ := h.function_of_prototype hprototype
  obtain ⟨entry', hentry', hname', htype'⟩ := h.function_of_prototype hprototype'
  obtain ⟨signature, hsignature, -, hparams, hvariadicity⟩ := htype.signature?_eq
  obtain ⟨signature', hsignature', -, hparams', hvariadicity'⟩ := htype'.signature?_eq
  simp only [Prototype.takesExactly, Prototype.takesVariadically, Bool.and_eq_true, beq_iff_eq,
    Bool.not_eq_true'] at hexact hvariadic
  obtain ⟨hcalled, hfixed, harguments⟩ := hexact
  obtain ⟨hcalled', hopen, hfront⟩ := hvariadic
  refine ⟨hlater, entry, entry', signature, signature', hentry, hentry', ?_, hsignature,
    hsignature', hvariadicity.trans hfixed, hvariadicity'.trans hopen, ?_⟩
  · rw [hname, hname', hcalled, hcalled']
  · rw [← List.isPrefixOf_iff_prefix, h.interned.isPrefixOf_eq hparams' hparams, harguments]
    exact hfront

end Program

/-! ## Calls of two programs -/

/-- What a call means among the first functions is one of them. -/
theorem lt_of_resolveIn_take {prototypes : List Prototype} {name : String}
    {arguments : List String} {count : Nat} {function : FunctionRef}
    (h : resolveIn (prototypes.take count) name arguments = some function) :
    function.index < count := by
  obtain ⟨prototype, hprototype, -⟩ := exists_of_resolveIn h
  have hlt := (List.getElem?_eq_some_iff.1 hprototype).1
  rw [List.length_take] at hlt
  omega

namespace Outline

/-- Two calls of one name and one list of arguments, each with a callee among some of the first
functions, mean one function, or one of them an exact overload that is none of the first functions
that the other could see. -/
theorem callee_eq_or_later {prototypes : List Prototype} {name : String} {arguments : List String}
    {count count' : Nat} {function function' : FunctionRef}
    (hcallee : resolveIn (prototypes.take count) name arguments = some function)
    (hcallee' : resolveIn (prototypes.take count') name arguments = some function')
    (hle : count ≤ count') :
    function' = function ∨ ∃ exact variadic : Prototype, count ≤ function'.index ∧
      prototypes[function'.index]? = some exact ∧ exact.takesExactly name arguments ∧
      prototypes[function.index]? = some variadic ∧
      variadic.takesVariadically name arguments := by
  rcases resolveIn_take hle hcallee with hsame | hlater
  · exact .inl (Option.some.inj (hcallee'.symm.trans hsame))
  · obtain ⟨exact, variadic, other, hother, hlater, hexact, htakes, hvariadic, htakes'⟩ := hlater
    obtain rfl : function' = other := Option.some.inj (hcallee'.symm.trans hother)
    exact .inr ⟨exact, variadic, hlater, hexact, htakes, hvariadic, htakes'⟩

/-- What outlines that differ only in callees and names of parameters say of a function. -/
theorem routine_of_named_eq {outline outline' : Outline (Statement Callee)}
    (h : (outline.map Statement.written).named = (outline'.map Statement.written).named)
    {index : Nat} {routine : Routine (Statement Callee)}
    (hroutine : outline.routines[index]? = some routine) :
    ∃ routine', outline'.routines[index]? = some routine' ∧
      routine'.prototype = routine.prototype ∧ ∀ name,
        (routine'.under name).map Statement.written = (routine.under name).map Statement.written := by
  have hroutines := congrArg (fun outline => outline.routines[index]?) h
  simp only [named, map, List.getElem?_map, hroutine, Option.map_some] at hroutines
  obtain ⟨middle, hmiddle, hsame⟩ := Option.map_eq_some_iff.1 hroutines.symm
  obtain ⟨routine', hroutine', rfl⟩ := Option.map_eq_some_iff.1 hmiddle
  have hprototype := congrArg Routine.prototype hsame
  have hblocks := congrArg Routine.blocks hsame
  refine ⟨routine', hroutine', hprototype, fun name => ?_⟩
  simp only [Routine.named] at hblocks
  rw [← Routine.under_map, ← Routine.under_map, Routine.under, Routine.under, hblocks]

/-- Outlines that differ only in callees and names of parameters have the same prototypes. -/
theorem prototypes_of_named_eq {outline outline' : Outline (Statement Callee)}
    (h : (outline.map Statement.written).named = (outline'.map Statement.written).named) :
    outline'.prototypes = outline.prototypes := by
  have hnamed : ∀ outline : Outline (Statement Callee),
      (outline.map Statement.written).named.prototypes = outline.prototypes := by
    intro outline
    simp only [named, map, prototypes, List.map_map]
    rfl
  rw [← hnamed outline, h, hnamed]

end Outline

/-- A statement whose callee has been found calls what was found. -/
theorem Statement.resolveIn_of_resolve {prototypes : List Prototype} {statement : Statement Callee}
    (h : statement.written.resolve prototypes = some statement) {callee : Callee}
    {arguments : List Operand} (hcall : statement.call? = some (callee, arguments)) :
    resolveIn prototypes callee.name (arguments.map Operand.type) = some callee.function := by
  have hproducer : ∀ producer : Producer Callee, producer.call? = some (callee, arguments) →
      (producer.map Callee.name).resolve prototypes = some producer →
      resolveIn prototypes callee.name (arguments.map Operand.type) = some callee.function := by
    intro producer hcall hresolve
    cases producer with
    | call callee' arguments' =>
      obtain ⟨rfl, rfl⟩ := Prod.mk.inj (Option.some.inj hcall)
      obtain ⟨function, hfunction, hsame⟩ := Option.map_eq_some_iff.1 hresolve
      rw [hfunction, ← (Producer.call.inj hsame).1]
    | alloc type => exact nomatch hcall
    | load pointer => exact nomatch hcall
  cases statement with
  | produce producer =>
    obtain ⟨found, hfound, hsame⟩ := Option.map_eq_some_iff.1 h
    exact hproducer producer hcall (Statement.produce.inj hsame ▸ hfound)
  | assign name producer =>
    obtain ⟨found, hfound, hsame⟩ := Option.map_eq_some_iff.1 h
    exact hproducer producer hcall ((Statement.assign.inj hsame).2 ▸ hfound)
  | set | ret | store | jump | branch => exact nomatch hcall

/-- If all calls of a function mean what the given functions tell, then so does the call at a place. -/
theorem Routine.MeantAmong.resolveIn_eq {routine : Routine (Statement Callee)}
    {prototypes : List Prototype} (h : routine.MeantAmong prototypes) {label : String}
    {position : Nat} {callee : Callee} {arguments : List Operand}
    (hcall : (routine.under label)[position]?.bind Statement.call? = some (callee, arguments)) :
    resolveIn prototypes callee.name (arguments.map Operand.type) = some callee.function := by
  obtain ⟨statement, hstatement, hcall⟩ := Option.bind_eq_some_iff.1 hcall
  obtain ⟨block, hblock, hmem⟩ :=
    Routine.exists_block_of_mem_under (List.mem_of_getElem? hstatement)
  exact Statement.resolveIn_of_resolve (h block hblock statement hmem) hcall

/-- Where functions are written alike, a call of the one is a call of the other, with the same name
and the same arguments. -/
theorem Routine.exists_call_of_written {routine routine' : Routine (Statement Callee)}
    {label : String} (hunder : (routine'.under label).map Statement.written =
      (routine.under label).map Statement.written) {position : Nat} {callee : Callee}
    {arguments : List Operand}
    (hcall : (routine.under label)[position]?.bind Statement.call? = some (callee, arguments)) :
    ∃ callee', (routine'.under label)[position]?.bind Statement.call? = some (callee', arguments) ∧
      callee'.name = callee.name := by
  obtain ⟨statement, hstatement, hcall⟩ := Option.bind_eq_some_iff.1 hcall
  have hwritten := congrArg (fun statements => statements[position]?) hunder
  simp only [List.getElem?_map, hstatement, Option.map_some] at hwritten
  obtain ⟨statement', hstatement', hsame⟩ := Option.map_eq_some_iff.1 hwritten
  have hcalls := congrArg Statement.call? hsame
  rw [Statement.call?_written, Statement.call?_written, hcall, Option.map_some] at hcalls
  obtain ⟨⟨callee', arguments'⟩, hcall', hpair⟩ := Option.map_eq_some_iff.1 hcalls
  obtain ⟨hname, rfl⟩ : callee'.name = callee.name ∧ arguments' = arguments := Prod.mk.inj hpair
  exact ⟨callee', by rw [hstatement', Option.bind_some, hcall'], hname⟩

namespace Program.Shows

variable {program : Program} {layout : Outline InstructionRef}
  {outline : Outline (Statement Callee)} (h : program.Shows layout outline)

include h

/-- Programs whose outlines have the same prototypes have the same functions. -/
theorem exists_function_of_prototypes {program' : Program} {layout' : Outline InstructionRef}
    {outline' : Outline (Statement Callee)} (h' : program'.Shows layout' outline')
    (hprototypes : outline'.prototypes = outline.prototypes) {ref : FunctionRef} {entry : Function}
    (hentry : program.functions.get? ref = some entry) :
    ∃ entry', program'.functions.get? ref = some entry' ∧ entry'.name = entry.name ∧
      program'.typeName entry'.type = program.typeName entry.type := by
  obtain ⟨laid, -, hlaid, -, his, -⟩ := h.routine_of_function hentry
  have hprototype : layout'.prototypes[ref.index]? = some laid.prototype := by
    rw [h'.statements.prototypes_eq, hprototypes, ← h.statements.prototypes_eq,
      Outline.prototypes, List.getElem?_map, hlaid, Option.map_some]
  obtain ⟨entry', hentry', hname, htype⟩ := h'.toLaid.function_of_prototype hprototype
  exact ⟨entry', hentry', hname.trans his.name.symm,
    htype.typeName.trans his.type.typeName.symm⟩

/-- The lines of a function whose calls mean what the first functions tell may have been read
without any function behind those. -/
theorem readWithout {function other : FunctionRef} {routine : Routine (Statement Callee)}
    (hroutine : outline.routines[function.index]? = some routine) {count : Nat}
    (hlower : max builtinCount (function.index + 1) ≤ count)
    (hmeant : routine.MeantAmong (outline.prototypes.take count)) (hother : count ≤ other.index) :
    program.ReadWithout function other := by
  refine ⟨by omega, by omega, fun label position callee hcallee => ?_⟩
  rw [h.calleeAt?_eq hroutine, Except.ok.injEq] at hcallee
  obtain ⟨⟨shown, arguments⟩, hcall, rfl⟩ := Option.map_eq_some_iff.1 hcallee
  exact (lt_of_resolveIn_take (hmeant.resolveIn_eq hcall)).trans_le hother

/-- Of two callees among the first functions, the one that more functions tell is the same, or it
overrides the other one and stands behind the fewer functions. -/
theorem eq_or_overrides {name : String} {arguments : List String} {count count' : Nat}
    {callee callee' : FunctionRef}
    (hcallee : resolveIn (outline.prototypes.take count) name arguments = some callee)
    (hcallee' : resolveIn (outline.prototypes.take count') name arguments = some callee')
    (hle : count ≤ count') :
    callee' = callee ∨ count ≤ callee'.index ∧ program.Overrides callee' callee := by
  rcases Outline.callee_eq_or_later hcallee hcallee' hle with hequal | hlater
  · exact .inl hequal
  · obtain ⟨exact, variadic, hlater, hexact, htakes, hvariadic, htakes'⟩ := hlater
    have hbehind := (lt_of_resolveIn_take hcallee).trans_le hlater
    rw [← h.statements.prototypes_eq] at hexact hvariadic
    exact .inr ⟨hlater, h.toLaid.overrides hbehind hexact htakes hvariadic htakes'⟩

end Program.Shows

namespace Reading

/-- **The text of a program tells the callees of its calls, but for overloads that may have been
declared behind them.** Two programs that have been read, with names that are plain words, and that
have one text have the same functions and calls at the same places. A call has one callee in both,
or else the callee in one of them overrides that in the other, and in that other program the lines
of the calling function may have been read without it. -/
theorem callees_of_text_eq {source source' : String} {program program' : Program}
    (hread : (ofText source).result = .ok program)
    (hread' : (ofText source').result = .ok program') (hspelled : program.Spelled Plain)
    (hspelled' : program'.Spelled Plain) (htext : program.text = program'.text) :
    (∀ ref entry, program.functions.get? ref = some entry →
      ∃ entry', program'.functions.get? ref = some entry' ∧ entry'.name = entry.name ∧
        program'.typeName entry'.type = program.typeName entry.type) ∧
      ∀ function label position callee,
        program.calleeAt? function label position = .ok (some callee) →
        ∃ callee', program'.calleeAt? function label position = .ok (some callee') ∧
          (callee' = callee ∨
            program'.ReadWithout function callee ∧ program.Overrides callee callee' ∨
            program.ReadWithout function callee' ∧ program.Overrides callee' callee) := by
  obtain ⟨outline, hshown, horderly⟩ := exists_outline_of_ok hread
  obtain ⟨outline', hshown', horderly'⟩ := exists_outline_of_ok hread'
  have hnamed : (outline.map Statement.written).named = (outline'.map Statement.written).named := by
    refine (hshown.readable hspelled horderly.builtins).named_eq_of_text_eq (fun _ h => h)
      (hshown'.readable hspelled' horderly'.builtins) ?_
    rw [hshown.text_eq, hshown'.text_eq] at htext
    exact Except.ok.inj htext
  have hprototypes := Outline.prototypes_of_named_eq hnamed
  obtain ⟨layout, hshows⟩ := hshown
  obtain ⟨layout', hshows'⟩ := hshown'
  refine ⟨fun ref entry => hshows.exists_function_of_prototypes hshows' hprototypes, ?_⟩
  intro function label position callee hcallee
  obtain ⟨routine, shown, arguments, hroutine, hcall, rfl⟩ := hshows.exists_call hcallee
  obtain ⟨routine', hroutine', -, hunder⟩ := Outline.routine_of_named_eq hnamed hroutine
  obtain ⟨shown', hcall', hname⟩ := Routine.exists_call_of_written (hunder label) hcall
  refine ⟨shown'.function, ?_, ?_⟩
  · rw [hshows'.calleeAt?_eq hroutine', hcall']
    rfl
  -- in each program all calls of the function mean what they meant among some of the functions
  obtain ⟨count, hlower, -, hmeant⟩ := horderly.calls _ _ hroutine
  obtain ⟨count', hlower', -, hmeant'⟩ := horderly'.calls _ _ hroutine'
  have hresolve := hmeant.resolveIn_eq hcall
  have hresolve' := hmeant'.resolveIn_eq hcall'
  rw [hprototypes, hname] at hresolve'
  -- the program with fewer functions has been read without the callee of the other one
  rcases Nat.le_total count count' with hle | hle
  · rcases hshows.eq_or_overrides hresolve hresolve' hle with hequal | ⟨hlater, hoverrides⟩
    · exact .inl hequal
    · exact .inr (.inr ⟨hshows.readWithout hroutine hlower hmeant hlater, hoverrides⟩)
  · rcases hshows.eq_or_overrides hresolve' hresolve hle with hequal | ⟨hlater, hoverrides⟩
    · exact .inl hequal.symm
    · exact .inr (.inl ⟨hshows'.readWithout hroutine' hlower' hmeant' hlater, hoverrides⟩)

/-- A source with a call that means a variadic function, since the function that takes exactly its
arguments is declared behind the caller. -/
def earlySource : String :=
  "dec num f num a ?\ndef num g\n@start\ncall f const num 1\nenddef\ndec num f num a\n"

/-- A source with the same functions and calls that declares both functions first. -/
def lateSource : String :=
  "dec num f num a ?\ndec num g\ndec num f num a\ndef num g\n@start\ncall f const num 1\nenddef\n"

/-- Whether programs have the same lines. -/
def agreeOnLines (program program' : Program) : Bool :=
  match program.lines, program'.lines with
  | .ok lines, .ok lines' => lines == lines'
  | _, _ => false

/-- Programs with the same lines have the same text. -/
theorem text_eq_of_agreeOnLines {program program' : Program}
    (h : agreeOnLines program program') : program.text = program'.text := by
  rw [agreeOnLines] at h
  split at h
  · next lines lines' hlines hlines' =>
    rw [Program.text, Program.text, hlines, hlines', eq_of_beq h]
  · exact absurd h Bool.false_ne_true

/-- Whether the call at a place means a function. -/
def callsAt (program : Program) (function : FunctionRef) (label : String) (position : Nat)
    (callee : FunctionRef) : Bool :=
  match program.calleeAt? function label position with
  | .ok answer => answer == some callee
  | .error _ => false

/-- A place that calls a function has this function as its callee. -/
theorem calleeAt?_of_callsAt {program : Program} {function : FunctionRef} {label : String}
    {position : Nat} {callee : FunctionRef}
    (h : callsAt program function label position callee) :
    program.calleeAt? function label position = .ok (some callee) := by
  rw [callsAt] at h
  split at h
  · next answer hanswer => rw [hanswer, eq_of_beq h]
  · exact absurd h Bool.false_ne_true

/-- The two sources give programs of one text, and the call means another function in each. -/
theorem exists_early_late : ∃ early late, (ofText earlySource).result = .ok early ∧
    (ofText lateSource).result = .ok late ∧ early.Spelled Plain ∧ late.Spelled Plain ∧
    early.text = late.text ∧ early.calleeAt? ⟨14⟩ "start" 0 = .ok (some ⟨13⟩) ∧
    late.calleeAt? ⟨14⟩ "start" 0 = .ok (some ⟨15⟩) := by
  have hchecked : accepts earlySource fun early => accepts lateSource fun late =>
      early.spelledSimply && late.spelledSimply && agreeOnLines early late &&
        callsAt early ⟨14⟩ "start" 0 ⟨13⟩ && callsAt late ⟨14⟩ "start" 0 ⟨15⟩ := by
    decide +kernel
  obtain ⟨early, hearly, hchecked⟩ := exists_of_accepts hchecked
  obtain ⟨late, hlate, hchecked⟩ := exists_of_accepts hchecked
  simp only [Bool.and_eq_true] at hchecked
  obtain ⟨⟨⟨⟨hspelled, hspelled'⟩, hlines⟩, hcallee⟩, hcallee'⟩ := hchecked
  exact ⟨early, late, hearly, hlate, (Program.spelled_of_spelledSimply hspelled).plain,
    (Program.spelled_of_spelledSimply hspelled').plain, text_eq_of_agreeOnLines hlines,
    calleeAt?_of_callsAt hcallee, calleeAt?_of_callsAt hcallee'⟩

/-- The function that takes exactly the arguments overrides the variadic one, and the lines with the
call may have been read without it. -/
theorem callees_early_late : ∃ early late, (ofText earlySource).result = .ok early ∧
    (ofText lateSource).result = .ok late ∧ early.Spelled Plain ∧ late.Spelled Plain ∧
    early.text = late.text ∧ early.calleeAt? ⟨14⟩ "start" 0 = .ok (some ⟨13⟩) ∧
    late.calleeAt? ⟨14⟩ "start" 0 = .ok (some ⟨15⟩) ∧ early.ReadWithout ⟨14⟩ ⟨15⟩ ∧
    early.Overrides ⟨15⟩ ⟨13⟩ := by
  obtain ⟨early, late, hearly, hlate, hspelled, hspelled', htext, hcallee, hcallee'⟩ :=
    exists_early_late
  obtain ⟨-, hcallees⟩ := callees_of_text_eq hearly hlate hspelled hspelled' htext
  obtain ⟨callee, hlateCallee, hoverrides⟩ := hcallees _ _ _ _ hcallee
  obtain rfl : callee = ⟨15⟩ := by simpa [hcallee'] using hlateCallee.symm
  refine ⟨early, late, hearly, hlate, hspelled, hspelled', htext, hcallee, hcallee', ?_⟩
  rcases hoverrides with hsame | ⟨hwithout, -⟩ | hoverrides
  · exact absurd hsame (by decide)
  · exact absurd hwithout.2.1 (by decide)
  · exact hoverrides

/-- The text of a program does not tell the callees of its calls. -/
theorem callees_not_determined : ¬ ∀ (source source' : String) (program program' : Program),
    (ofText source).result = .ok program → (ofText source').result = .ok program' →
    program.Spelled Plain → program'.Spelled Plain → program.text = program'.text →
    ∀ function label position callee callee',
      program.calleeAt? function label position = .ok (some callee) →
      program'.calleeAt? function label position = .ok (some callee') → callee = callee' := by
  intro h
  obtain ⟨early, late, hearly, hlate, hspelled, hspelled', htext, hcallee, hcallee'⟩ :=
    exists_early_late
  have hsame := h _ _ early late hearly hlate hspelled hspelled' htext _ _ _ _ _ hcallee hcallee'
  exact absurd hsame (by decide)

end Reading

end ChainIR
