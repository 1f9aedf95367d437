import Mathlib
import ChainIR.Proofs.Outline.Resolution
import ChainIR.Proofs.Reading.Line

/-! # What is read along a line

Whatever the tokens of a line are, reading it adds only types, values and free instructions to the
program, and what it comes to is an operand, an instruction with a result or a statement
(`LineReader.Ensures.instruction`). The callee of a call is the one that the prototypes declared
so far tell. -/

namespace ChainIR

/-! ## What has been read -/

/-- A constant that has been read has the type of its literal. -/
theorem Constant.type_of_ofText {type : TypeRef} {name text : String} {constant : Constant}
    (h : Constant.ofText type name text = .ok constant) :
    constant.type = type ∧ name = constant.literal.typeName := by
  unfold ofText at h
  split at h
  · split at h
    · obtain rfl := Except.ok.inj h
      exact ⟨rfl, rfl⟩
    · exact nomatch h
  · obtain rfl := Except.ok.inj h
    exact ⟨rfl, rfl⟩
  · exact nomatch h

namespace Program

/-- A new instruction gives the result that a producer tells of, and its callee is the one that a
call means among the prototypes. -/
structure Gives (program : Program) (prototypes : List Prototype) (ref : InstructionRef)
    (producer : Producer Callee) : Prop where
  /-- The instruction is in no chain, and nobody has asked for its result. -/
  entry : ∃ entry, program.instructions.get? ref = some entry ∧ entry.label = none ∧
    entry.result = none ∧ program.ProducerIs entry.operation producer
  /-- The callee is the one that is meant. -/
  meant : (producer.map Callee.name).resolve prototypes = some producer

/-- A new instruction is a statement, and its callee is the one that a call means among the
prototypes. -/
structure Holds (program : Program) (prototypes : List Prototype) (ref : InstructionRef)
    (statement : Statement Callee) : Prop where
  /-- The instruction is in no chain. -/
  entry : ∃ entry, program.instructions.get? ref = some entry ∧ entry.label = none
  /-- The instruction is the statement. -/
  is : program.StatementIs ref statement
  /-- The callee is the one that is meant. -/
  meant : statement.written.resolve prototypes = some statement

/-- An instruction with a result by itself is a statement. -/
theorem Gives.holds {program : Program} {prototypes : List Prototype} {ref : InstructionRef}
    {producer : Producer Callee} (h : program.Gives prototypes ref producer) :
    program.Holds prototypes ref (.produce producer) := by
  obtain ⟨⟨entry, hentry, hlabel, -, his⟩, hmeant⟩ := h
  refine ⟨⟨entry, hentry, hlabel⟩, ⟨entry, hentry, his⟩, ?_⟩
  rw [Statement.written, Statement.map, Statement.resolve, hmeant]
  rfl

end Program

/-! ## Calls -/

namespace LineReader

/-- Questions about the elements of a list are answered one by one. -/
theorem mapM_of_forall₂ {α β : Type} {reader : α → LineReader β} {state : LineState}
    {items : List α} {answers : List β}
    (h : List.Forall₂ (fun item answer => reader item state = .ok (answer, state)) items answers) :
    items.mapM reader state = .ok (answers, state) := by
  induction h with
  | nil => rfl
  | cons hfirst _ ih =>
    rw [List.mapM_cons, Step.bind_of_ok hfirst, Step.bind_of_ok ih]
    rfl

/-- Operands that all have types. -/
theorem forall₂_valueType {program : Program} {refs : List ValueRef} {operands : List Operand}
    (h : List.Forall₂ program.OperandIs refs operands) : ∃ types,
      List.Forall₂ (fun ref type => program.valueType ref = .ok (some type)) refs types ∧
        List.Forall₂ (fun type name => program.typeName type = .ok name) types
          (operands.map Operand.type) := by
  induction h with
  | nil => exact ⟨[], .nil, .nil⟩
  | cons hfirst _ ih =>
    obtain ⟨type, hvalue, hname⟩ := hfirst.valueTypeWith_eq program.resultType
    obtain ⟨types, hvalues, hnames⟩ := ih
    exact ⟨type :: types, .cons hvalue hvalues, .cons hname hnames⟩

/-- The types of values that all have one. -/
theorem mapM_valueType {state : LineState} {refs : List ValueRef} {types : List TypeRef}
    (h : List.Forall₂ (fun ref type => state.program.valueType ref = .ok (some type)) refs types) :
    (refs.mapM fun ref => ask fun program => program.valueType ref) state =
      .ok (types.map some, state) :=
  mapM_of_forall₂ (List.forall₂_map_right_iff.2 (h.imp fun _ _ hvalue => ask_of_ok hvalue))

/-- Types that are all there. -/
theorem mapM_id_map_some {α : Type} (items : List α) : (items.map some).mapM id = some items := by
  induction items with
  | nil => rfl
  | cons item items ih => rw [List.map_cons, List.mapM_cons, ih]; rfl

/-- The names of types that all have one. -/
theorem typeNames_apply {state : LineState} {types : List TypeRef} {names : List String}
    (h : List.Forall₂ (fun type name => state.program.typeName type = .ok name) types names) :
    typeNames (types.map some) state = .ok (", ".intercalate names, state) := by
  rw [typeNames]
  refine (Step.bind_of_ok (mapM_of_forall₂ ?_)).trans rfl
  exact List.forall₂_map_left_iff.2 (h.imp fun _ _ hname => ask_of_ok hname)

/-- A call has a callee if the prototypes tell one, and is rejected if they do not. -/
theorem callOf_decides {state : LineState} {outline : Outline (Statement Callee)}
    (hshown : state.program.ShownBy outline) (name : String) {refs : List ValueRef}
    {operands : List Operand} (hoperands : List.Forall₂ state.program.OperandIs refs operands) :
    match (Producer.call name operands).resolve outline.prototypes with
    | some producer => Step.Yields (callOf name refs) state fun ref after =>
        state.Passes after ∧ after.tokens = state.tokens ∧
          after.program.Gives outline.prototypes ref producer
    | none => ∃ types : List TypeTree, callOf name refs state = .error (.rejected
        (.unresolvedCallee name (", ".intercalate (types.map TypeTree.name)) state.line)) := by
  obtain ⟨types, hrefs, hnames⟩ := forall₂_valueType hoperands
  have hresolved := hshown.resolve?_eq name hnames
  rw [Producer.resolve]
  cases hcallee : resolveIn outline.prototypes name (operands.map Operand.type) with
  | none =>
    -- the answer names the types of the arguments, all of which are trees
    rw [hcallee] at hresolved
    obtain ⟨trees, htrees⟩ := Edit.exists_trees hshown.interned hnames
    refine ⟨trees, ?_⟩
    rw [callOf, Step.bind_of_ok (mapM_valueType hrefs), mapM_id_map_some, htrees]
    exact (Step.bind_of_ok (ask_of_ok hresolved)).trans
      (Step.bind_of_ok (typeNames_apply hnames))
  | some function =>
    rw [hcallee] at hresolved
    obtain ⟨prototype, hprototype, hsame⟩ := exists_of_resolveIn hcallee
    rw [Outline.prototypes, List.getElem?_map] at hprototype
    obtain ⟨routine, hroutine, rfl⟩ := Option.map_eq_some_iff.1 hprototype
    obtain ⟨entry, hentry, hentryName, -⟩ := hshown.function_of_routine hroutine
    refine .bind_of_ok (mapM_valueType hrefs) ?_
    rw [mapM_id_map_some]
    refine .bind_of_ok (ask_of_ok hresolved) ?_
    have hadded := Edit.addInstruction_yields state.program (.call function refs)
    refine (edit_yields hadded).mono fun ref after hafter => ?_
    obtain ⟨hafter, hgrows, hinstruction⟩ := hafter
    refine ⟨hafter ▸ .of_grows hgrows, hafter ▸ rfl, ⟨_, hinstruction, rfl, rfl, refs, rfl, ?_,
      hoperands.imp fun _ _ his => his.mono hgrows.toExtends⟩, ?_⟩
    · obtain ⟨entry', hentry', hname', -⟩ := hgrows.toExtends.functions _ _ hentry
      exact ⟨entry', hentry', hname'.trans (hentryName.trans hsame)⟩
    · simp only [Producer.map, Producer.resolve, hcallee, Option.map_some]

/-! ## Readers one by one -/

namespace Ensures

variable {state : LineState} {outline : Outline (Statement Callee)}
  (hshown : state.program.ShownBy outline) (hendless : state.Endless)

include hendless

/-- Reading a jump target. -/
theorem target : Ensures LineReader.target state fun _ after =>
    state.Passes after ∧ after.program = state.program := by
  rw [LineReader.target]
  refine .atKind (.atKind (.atKind ?_))
  split
  · exact (take hendless "label").bind fun _ _ htaken => .pure htaken.2
  · exact unexpected hendless

include hshown

/-- Reading a type. -/
theorem type : Ensures LineReader.type state fun ref after =>
    state.Passes after ∧ ∃ name, after.program.typeName ref = .ok name := by
  rw [LineReader.type]
  refine (take hendless "type").bind fun token taken htaken => ?_
  obtain ⟨-, hpasses, hprogram⟩ := htaken
  have hfound := Edit.typeByName_yields (hprogram ▸ hshown.interned) token.value
  refine (of_yields (edit_yields hfound)).bind fun result after hafter => ?_
  obtain ⟨hafter, hadds, hinterned, hname⟩ := hafter
  have hpasses' : state.Passes after :=
    hpasses.trans (hafter ▸ .of_grows (.of_addsTypes hadds hinterned))
  split
  · exact .pure ⟨hpasses', _, hname _ rfl⟩
  · exact reject trivial
  · exact reject trivial

/-- Reading a constant. -/
theorem constant : Ensures LineReader.constant state fun constant after =>
    state.Passes after ∧
      after.program.typeName constant.type = .ok constant.literal.typeName := by
  rw [LineReader.constant]
  refine (takeWord hendless "const").bind fun _ behind hbehind => ?_
  obtain ⟨-, hpasses, hprogram⟩ := hbehind
  refine (type (hprogram ▸ hshown) (hpasses.endless hendless)).bind fun ref typed htyped => ?_
  obtain ⟨htype, name, hname⟩ := htyped
  refine (take (htype.endless (hpasses.endless hendless)) "literal").bind
    fun token taken htaken => ?_
  obtain ⟨-, htoken, hprogram'⟩ := htaken
  rw [← hprogram'] at hname
  have hasked : taken.program.constantOfText ref token.value =
      .ok (Constant.ofText ref name token.value) := by
    rw [Program.constantOfText, hname]
    rfl
  refine bind_of_ok (ask_of_ok hasked) ?_
  cases hread : Constant.ofText ref name token.value with
  | ok constant =>
    obtain ⟨rfl, rfl⟩ := Constant.type_of_ofText hread
    exact .pure ⟨hpasses.trans (htype.trans htoken), hname⟩
  | error error => exact reject trivial

omit hshown hendless in
/-- Adding an operand, to a program that may have grown before. -/
theorem addValue {before : LineState} (hpasses : state.Passes before) (value : Value)
    (operand : Operand) (his : ∀ {program ref}, before.program.Extends program →
      program.values.get? ref = some value → program.OperandIs ref operand) :
    Ensures (edit (Edit.addValue value)) before fun ref after =>
      state.Passes after ∧ ∃ operand, after.program.OperandIs ref operand := by
  refine (of_yields (edit_yields (Edit.addValue_yields before.program value))).mono
    fun ref after hafter => ?_
  obtain ⟨hafter, hgrows, hvalue⟩ := hafter
  exact ⟨hpasses.trans (hafter ▸ .of_grows hgrows), operand, his hgrows.toExtends hvalue⟩

/-- Reading a register. -/
theorem register : Ensures (do
      let token ← LineReader.take "register"
      let ref ← LineReader.type
      edit (Edit.addValue (.register token.value ref))) state fun ref after =>
    state.Passes after ∧ ∃ operand, after.program.OperandIs ref operand := by
  refine (take hendless "register").bind fun token taken htaken => ?_
  obtain ⟨-, hpasses, hprogram⟩ := htaken
  refine (type (hprogram ▸ hshown) (hpasses.endless hendless)).bind fun ref typed htyped => ?_
  obtain ⟨htype, name, hname⟩ := htyped
  exact addValue (hpasses.trans htype) _ (.register token.value name) fun hextends hvalue =>
    ⟨ref, hvalue, hextends.typeName hname⟩

/-- Reading a global. -/
theorem global : Ensures (do
      let token ← LineReader.take "global"
      match (← MonadState.get).program.globalNamed? token.value with
      | none => LineReader.reject (.unknownGlobal token)
      | some global =>
        let entry ← ask fun program => program.global global
        edit (Edit.addValue (.globalPointer token.value entry.initial.type))) state
    fun ref after => state.Passes after ∧ ∃ operand, after.program.OperandIs ref operand := by
  refine (take hendless "global").bind fun token taken htaken => ?_
  obtain ⟨-, hpasses, hprogram⟩ := htaken
  refine .get ?_
  split
  · exact reject trivial
  next global hglobal =>
  rw [hprogram] at hglobal
  obtain ⟨entry, literal, hentry, hname, -, htype⟩ := hshown.global_of_named hglobal
  rw [← hprogram] at hentry htype
  refine bind_of_ok (ask_of_ok (Program.found_eq_ok.2 hentry)) ?_
  refine addValue hpasses _ (.global token.value literal.typeName) fun hextends hvalue => ?_
  obtain ⟨entry', hentry', hname', hinitial⟩ := hextends.globals _ _ hentry
  rw [← hinitial] at hvalue htype
  exact ⟨global, entry', hentry', hname'.trans hname, hextends.typeName htype, .inl hvalue⟩

/-- Reading a constant operand. -/
theorem literal : Ensures (do
      let constant ← LineReader.constant
      edit (Edit.addValue (.constant constant))) state fun ref after =>
    state.Passes after ∧ ∃ operand, after.program.OperandIs ref operand := by
  refine (constant hshown hendless).bind fun constant between hbetween => ?_
  obtain ⟨hpasses, htype⟩ := hbetween
  exact addValue hpasses _ (.constant constant.literal) fun hextends hvalue =>
    ⟨constant.type, hvalue, hextends.typeName htype⟩

/-- Reading a value. -/
theorem value : Ensures LineReader.value state fun ref after =>
    state.Passes after ∧ ∃ operand, after.program.OperandIs ref operand := by
  rw [LineReader.value]
  refine .atKind ?_
  split
  · exact register hshown hendless
  refine .atKind ?_
  split
  · exact global hshown hendless
  refine .atWord ?_
  split
  · exact literal hshown hendless
  · exact unexpected hendless

/-- Reading values. -/
theorem valuesWithin (count : Nat) : Ensures (LineReader.valuesWithin count) state
    fun refs after => state.Passes after ∧
      ∃ operands, List.Forall₂ after.program.OperandIs refs operands := by
  induction count generalizing state with
  | zero => exact .pure ⟨.refl state, [], .nil⟩
  | succ count ih =>
    rw [LineReader.valuesWithin]
    refine .atEnd ?_
    split
    · exact .pure ⟨.refl state, [], .nil⟩
    refine (value hshown hendless).bind fun ref between hbetween => ?_
    obtain ⟨hpasses, operand, hoperand⟩ := hbetween
    refine (ih (hshown.grows hpasses.program) (hpasses.endless hendless)).bind
      fun refs after hafter => ?_
    obtain ⟨hpasses', operands, hoperands⟩ := hafter
    exact .pure ⟨hpasses.trans hpasses', operand :: operands,
      .cons (hoperand.mono hpasses'.program.toExtends) hoperands⟩

/-- Reading values up to the end of the line. -/
theorem values : Ensures LineReader.values state fun refs after => state.Passes after ∧
    ∃ operands, List.Forall₂ after.program.OperandIs refs operands :=
  .get (valuesWithin hshown hendless _)

omit hshown hendless in
/-- Adding an instruction. -/
theorem addInstruction {before : LineState} (hpasses : state.Passes before)
    (operation : Operation) :
    Ensures (edit (Edit.addInstruction operation)) before fun ref after =>
      state.Passes after ∧ before.program.Extends after.program ∧
        after.program.instructions.get? ref = some { self := ref, operation } := by
  have hadded := Edit.addInstruction_yields before.program operation
  refine (of_yields (edit_yields hadded)).mono fun ref after hafter => ?_
  obtain ⟨hafter, hgrows, hentry⟩ := hafter
  exact ⟨hpasses.trans (hafter ▸ .of_grows hgrows), hgrows.toExtends, hentry⟩

/-- Reading a call. -/
theorem call : Ensures LineReader.call state fun ref after => state.Passes after ∧
    ∃ producer, after.program.Gives outline.prototypes ref producer := by
  rw [LineReader.call]
  refine (take hendless _).bind fun _ behind hbehind => ?_
  obtain ⟨-, hkeyword, -⟩ := hbehind
  refine (take (hkeyword.endless hendless) _).bind fun name named hnamed => ?_
  obtain ⟨-, hname, -⟩ := hnamed
  have hpasses := hkeyword.trans hname
  refine (values (hshown.grows hpasses.program) (hpasses.endless hendless)).bind
    fun refs after hafter => ?_
  obtain ⟨hvalues, operands, hoperands⟩ := hafter
  have hpasses' := hpasses.trans hvalues
  have hcall := callOf_decides (hshown.grows hpasses'.program) name.value hoperands
  cases hcallee : (Producer.call name.value operands).resolve outline.prototypes with
  | some producer =>
    rw [hcallee] at hcall
    refine (of_yields hcall).mono fun ref added hadded => ?_
    exact ⟨hpasses'.trans hadded.1, producer, hadded.2.2⟩
  | none =>
    rw [hcallee] at hcall
    obtain ⟨trees, hrun⟩ := hcall
    rw [Ensures, hrun]
    exact ⟨trees, rfl⟩

/-- Reading an instruction that has a result. -/
theorem producer : Ensures LineReader.producer state fun ref after => state.Passes after ∧
    ∃ producer, after.program.Gives outline.prototypes ref producer := by
  rw [LineReader.producer]
  refine .atWord ?_
  split
  · exact call hshown hendless
  refine .atWord ?_
  split
  · refine (take hendless _).bind fun _ behind hbehind => ?_
    obtain ⟨-, hkeyword, -⟩ := hbehind
    refine (type (hshown.grows hkeyword.program) (hkeyword.endless hendless)).bind
      fun type typed htyped => ?_
    obtain ⟨htype, name, hname⟩ := htyped
    refine (addInstruction (hkeyword.trans htype) _).mono fun ref added hadded => ?_
    obtain ⟨hadd, hextends, hinstruction⟩ := hadded
    exact ⟨hadd, .alloc name, ⟨_, hinstruction, rfl, rfl, type, rfl, hextends.typeName hname⟩, rfl⟩
  refine .atWord ?_
  split
  · refine (take hendless _).bind fun _ behind hbehind => ?_
    obtain ⟨-, hkeyword, -⟩ := hbehind
    refine (value (hshown.grows hkeyword.program) (hkeyword.endless hendless)).bind
      fun pointer valued hvalued => ?_
    obtain ⟨hvalue, operand, hoperand⟩ := hvalued
    refine (addInstruction (hkeyword.trans hvalue) _).mono fun ref added hadded => ?_
    obtain ⟨hadd, hextends, hinstruction⟩ := hadded
    exact ⟨hadd, .load operand, ⟨_, hinstruction, rfl, rfl, pointer, rfl,
      hoperand.mono hextends⟩, rfl⟩
  · exact unexpected hendless

/-- Reading what a register is set to. -/
theorem assigned (name : String) : Ensures LineReader.assigned state fun ref after =>
    state.Passes after ∧ ∃ statement, statement.written.resolve outline.prototypes = some statement ∧
      after.program.OperationIs (.set name ref) statement := by
  rw [LineReader.assigned, LineReader.atProducer]
  simp only [bind_assoc, pure_bind]
  refine .atWord (.atWord (.atWord ?_))
  split
  · refine (producer hshown hendless).bind fun inner produced hproduced => ?_
    obtain ⟨hpasses, producer, ⟨entry, hentry, -, hresult, his⟩, hmeant⟩ := hproduced
    refine (of_yields (edit_yields (Edit.resultValue_yields hentry))).mono fun ref after hafter => ?_
    obtain ⟨hafter, hgrows, hvalue⟩ := hafter
    obtain ⟨result, hinner⟩ := hgrows.instructions _ _ hentry
    refine ⟨hpasses.trans (hafter ▸ .of_grows hgrows), .assign name producer, ?_, ref, inner, _, rfl,
      hvalue hresult, hinner, his.mono hgrows.toExtends⟩
    rw [Statement.written, Statement.map, Statement.resolve, hmeant]
    rfl
  · refine (value hshown hendless).mono fun ref after hafter => ?_
    obtain ⟨hpasses, operand, hoperand⟩ := hafter
    exact ⟨hpasses, .set name operand, rfl, ref, rfl, hoperand⟩

omit hshown hendless in
/-- Adding the instruction of a statement. -/
theorem addStatement {before : LineState} (hpasses : state.Passes before) {operation : Operation}
    (statement : Statement Callee) (his : before.program.OperationIs operation statement)
    (hmeant : statement.written.resolve outline.prototypes = some statement) :
    Ensures (edit (Edit.addInstruction operation)) before fun ref after =>
      state.Passes after ∧
        ∃ statement, after.program.Holds outline.prototypes ref statement := by
  refine (addInstruction hpasses operation).mono fun ref added hadded => ?_
  obtain ⟨hadd, hextends, hinstruction⟩ := hadded
  exact ⟨hadd, statement, ⟨_, hinstruction, rfl⟩, ⟨_, hinstruction, his.mono hextends⟩, hmeant⟩

/-- Reading the setting of a register. -/
theorem setting : Ensures (do
      let name := (← LineReader.take "register").value
      edit (Edit.addInstruction (.set name (← LineReader.assigned)))) state fun ref after =>
    state.Passes after ∧ ∃ statement, after.program.Holds outline.prototypes ref statement := by
  refine (take hendless _).bind fun name named hnamed => ?_
  obtain ⟨-, hname, -⟩ := hnamed
  refine (assigned (hshown.grows hname.program) (hname.endless hendless) name.value).bind
    fun ref after hafter => ?_
  obtain ⟨hpasses, statement, hmeant, his⟩ := hafter
  exact addStatement (hname.trans hpasses) statement his hmeant

/-- Taking the keyword of a line. -/
theorem keyword (expected : String) : Ensures (LineReader.take expected) state fun _ behind =>
    behind.program.ShownBy outline ∧ behind.Endless ∧ state.Passes behind :=
  (take hendless expected).mono fun _ _ hbehind =>
    ⟨hshown.grows hbehind.2.1.program, hbehind.2.1.endless hendless, hbehind.2.1⟩

/-- Reading how a function is left. -/
theorem ret : Ensures (do
      let _ ← LineReader.take "`ret`"
      let operand ← if ← LineReader.atEnd then Pure.pure none else some <$> LineReader.value
      edit (Edit.addInstruction (.ret operand))) state fun ref after =>
    state.Passes after ∧ ∃ statement, after.program.Holds outline.prototypes ref statement := by
  refine (keyword hshown hendless _).bind fun _ behind hbehind => ?_
  obtain ⟨hshown', hendless', hpasses⟩ := hbehind
  refine .atEnd ?_
  split
  · exact addStatement hpasses (.ret none) rfl rfl
  · refine (of_map (value hshown' hendless')).bind fun operand valued hvalued => ?_
    obtain ⟨ref, rfl, hvalue, operand, hoperand⟩ := hvalued
    exact addStatement (hpasses.trans hvalue) (.ret (some operand)) ⟨ref, rfl, hoperand⟩ rfl

/-- Reading what is stored. -/
theorem store : Ensures (do
      let _ ← LineReader.take "`store`"
      let pointer ← LineReader.value
      edit (Edit.addInstruction (.store pointer (← LineReader.value)))) state fun ref after =>
    state.Passes after ∧ ∃ statement, after.program.Holds outline.prototypes ref statement := by
  refine (keyword hshown hendless _).bind fun _ behind hbehind => ?_
  obtain ⟨hshown', hendless', hpasses⟩ := hbehind
  refine (value hshown' hendless').bind fun pointer pointed hpointed => ?_
  obtain ⟨hpointer, target, htarget⟩ := hpointed
  refine (value (hshown'.grows hpointer.program) (hpointer.endless hendless')).bind
    fun ref valued hvalued => ?_
  obtain ⟨hvalue, operand, hoperand⟩ := hvalued
  exact addStatement (hpasses.trans (hpointer.trans hvalue)) (.store target operand)
    ⟨pointer, ref, rfl, htarget.mono hvalue.program.toExtends, hoperand⟩ rfl

/-- Reading a jump. -/
theorem jump : Ensures (do
      let _ ← LineReader.take "`jmp`"
      edit (Edit.addInstruction (.jump (← LineReader.target)))) state fun ref after =>
    state.Passes after ∧ ∃ statement, after.program.Holds outline.prototypes ref statement := by
  refine (keyword hshown hendless _).bind fun _ behind hbehind => ?_
  obtain ⟨-, hendless', hpasses⟩ := hbehind
  refine (target hendless').bind fun name after hafter => ?_
  exact addStatement (hpasses.trans hafter.1) (.jump name) rfl rfl

/-- Reading a branch. -/
theorem branch : Ensures (do
      let _ ← LineReader.take "`cjmp`"
      let condition ← LineReader.value
      let whenTrue ← LineReader.target
      edit (Edit.addInstruction (.branch condition whenTrue (← LineReader.target)))) state
    fun ref after => state.Passes after ∧
      ∃ statement, after.program.Holds outline.prototypes ref statement := by
  refine (keyword hshown hendless _).bind fun _ behind hbehind => ?_
  obtain ⟨hshown', hendless', hpasses⟩ := hbehind
  refine (value hshown' hendless').bind fun ref valued hvalued => ?_
  obtain ⟨hvalue, condition, hcondition⟩ := hvalued
  refine (target (hvalue.endless hendless')).bind fun whenTrue first hfirst => ?_
  obtain ⟨htrue, -⟩ := hfirst
  refine (target (htrue.endless (hvalue.endless hendless'))).bind fun whenFalse after hafter => ?_
  obtain ⟨hfalse, -⟩ := hafter
  have htargets := htrue.trans hfalse
  exact addStatement (hpasses.trans (hvalue.trans htargets)) (.branch condition whenTrue whenFalse)
    ⟨ref, rfl, hcondition.mono htargets.program.toExtends⟩ rfl

/-- Reading an instruction with a result that stands by itself. -/
theorem produce : Ensures LineReader.producer state fun ref after =>
    state.Passes after ∧ ∃ statement, after.program.Holds outline.prototypes ref statement := by
  refine (producer hshown hendless).mono fun ref after hafter => ?_
  obtain ⟨hpasses, producer, hgives⟩ := hafter
  exact ⟨hpasses, .produce producer, hgives.holds⟩

/-- Reading an instruction. -/
theorem instruction : Ensures LineReader.instruction state fun ref after =>
    state.Passes after ∧
      ∃ statement, after.program.Holds outline.prototypes ref statement := by
  rw [LineReader.instruction]
  refine .atKind ?_
  split
  · exact setting hshown hendless
  refine .atWord ?_
  split
  · exact ret hshown hendless
  refine .atWord ?_
  split
  · exact store hshown hendless
  refine .atWord ?_
  split
  · exact jump hshown hendless
  refine .atWord ?_
  split
  · exact branch hshown hendless
  · exact produce hshown hendless

/-- Reading a whole line that holds an instruction. -/
theorem instructionLine : Ensures LineReader.instructionLine state fun ref after =>
    state.Passes after ∧
      ∃ statement, after.program.Holds outline.prototypes ref statement := by
  rw [LineReader.instructionLine]
  refine (instruction hshown hendless).bind fun ref after hafter => ?_
  refine (finish (hafter.1.endless hendless)).bind fun _ behind hbehind => ?_
  exact .pure (hbehind ▸ hafter)

end Ensures

end LineReader

end ChainIR
