import Mathlib
import ChainIR.Proofs.Reading.Grammar
import ChainIR.Proofs.Reading.Meaning
import ChainIR.Proofs.Symbols

/-! # Reading a line is deriving it

A derivation denotes an instruction in a program if every name in it has a meaning there: types
resolve, globals are bound, literals are accepted for their types, and a call has a callee for the
types of its arguments. The parts of a derivation are evaluated from left to right, and each one
starts from the program that those in front of it have built. A line is read exactly if its tokens
have a derivation that denotes an instruction, and this instruction is the one that is built
(`Program.Reachable.instructionLine_iff`). -/

namespace ChainIR

open Program

/-! ## What derivations denote -/

/-- A value denotes an operand of a type, and `after` is the program with this operand. -/
inductive OperandTree.Denotes (program : Program) :
    OperandTree → ValueRef → TypeRef → Program → Prop
  /-- The type of a register is the one of the name behind it. -/
  | register {name : Token.OfKind .register} {type : Token} {ref : TypeRef} {value : ValueRef}
      {typed after : Program}
      (htype : Edit.typeByName type.value program = .ok (.ok (some ref), typed))
      (hvalue : Edit.addValue (.register name.1.value ref) typed = .ok (value, after)) :
      Denotes program (.register name type) value ref after
  /-- The type of a global is the one of the constant that it is bound to. -/
  | global {name : Token.OfKind .global} {ref : GlobalRef} {entry : Global} {value : ValueRef}
      {after : Program} (hbound : program.globalNamed? name.1.value = some ref)
      (hentry : program.globals.get? ref = some entry)
      (hvalue : Edit.addValue (.globalPointer name.1.value entry.initial.type) program =
        .ok (value, after)) :
      Denotes program (.global name) value entry.initial.type after
  /-- The literal of a constant is one of its type. -/
  | constant {keyword : Token.Keyword "const"} {type literal : Token} {ref : TypeRef}
      {constant : Constant} {value : ValueRef} {typed after : Program}
      (htype : Edit.typeByName type.value program = .ok (.ok (some ref), typed))
      (hliteral : typed.constantOfText ref literal.value = .ok (.ok constant))
      (hvalue : Edit.addValue (.constant constant) typed = .ok (value, after)) :
      Denotes program (.constant keyword type literal) value ref after

/-- Values in a row denote operands of types. -/
inductive OperandTree.DenotesAll :
    Program → List OperandTree → List ValueRef → List TypeRef → Program → Prop
  | nil (program : Program) : DenotesAll program [] [] [] program
  | cons {program between after : Program} {operand : OperandTree} {operands : List OperandTree}
      {value : ValueRef} {values : List ValueRef} {type : TypeRef} {types : List TypeRef}
      (hfirst : operand.Denotes program value type between)
      (hrest : DenotesAll between operands values types after) :
      DenotesAll program (operand :: operands) (value :: values) (type :: types) after

/-- An instruction with a result denotes an operation, and `after` is the program with its
operands. -/
inductive ProducerTree.Denotes (program : Program) : ProducerTree → Operation → Program → Prop
  /-- The callee is the overload that the types of the arguments tell. -/
  | call {keyword : Token.Keyword "call"} {name : Token} {arguments : List OperandTree}
      {values : List ValueRef} {types : List TypeRef} {callee : FunctionRef} {after : Program}
      (harguments : OperandTree.DenotesAll program arguments values types after)
      (hcallee : after.resolve? name.value types = .ok (some callee)) :
      Denotes program (.call keyword name arguments) (.call callee values) after
  | alloc {keyword : Token.Keyword "alloc"} {type : Token} {ref : TypeRef} {after : Program}
      (htype : Edit.typeByName type.value program = .ok (.ok (some ref), after)) :
      Denotes program (.alloc keyword type) (.alloc ref) after
  | load {keyword : Token.Keyword "load"} {pointer : OperandTree} {value : ValueRef}
      {type : TypeRef} {after : Program} (hpointer : pointer.Denotes program value type after) :
      Denotes program (.load keyword pointer) (.load value) after

/-- A line denotes an operation, and `after` is the program with its operands. -/
inductive LineTree.Denotes (program : Program) : LineTree → Operation → Program → Prop
  /-- The instruction whose result a register is set to stands in front of the setting. -/
  | setResult {name : Token.OfKind .register} {producer : ProducerTree} {operation : Operation}
      {inner : InstructionRef} {value : ValueRef} {operands made after : Program}
      (hproducer : producer.Denotes program operation operands)
      (hinner : Edit.addInstruction operation operands = .ok (inner, made))
      (hvalue : Edit.resultValue inner made = .ok (value, after)) :
      Denotes program (.setResult name producer) (.set name.1.value value) after
  | setValue {name : Token.OfKind .register} {operand : OperandTree} {value : ValueRef}
      {type : TypeRef} {after : Program} (hoperand : operand.Denotes program value type after) :
      Denotes program (.setValue name operand) (.set name.1.value value) after
  | ret {keyword : Token.Keyword "ret"} : Denotes program (.ret keyword) (.ret none) program
  | retValue {keyword : Token.Keyword "ret"} {operand : OperandTree} {value : ValueRef}
      {type : TypeRef} {after : Program} (hoperand : operand.Denotes program value type after) :
      Denotes program (.retValue keyword operand) (.ret (some value)) after
  | store {keyword : Token.Keyword "store"} {target operand : OperandTree}
      {pointer value : ValueRef} {pointerType type : TypeRef} {pointed after : Program}
      (htarget : target.Denotes program pointer pointerType pointed)
      (hoperand : operand.Denotes pointed value type after) :
      Denotes program (.store keyword target operand) (.store pointer value) after
  | jump {keyword : Token.Keyword "jmp"} {target : Token.Target} :
      Denotes program (.jump keyword target) (.jump target.1.value) program
  | branch {keyword : Token.Keyword "cjmp"} {condition : OperandTree}
      {whenTrue whenFalse : Token.Target} {value : ValueRef} {type : TypeRef} {after : Program}
      (hcondition : condition.Denotes program value type after) :
      Denotes program (.branch keyword condition whenTrue whenFalse)
        (.branch value whenTrue.1.value whenFalse.1.value) after
  | produce {producer : ProducerTree} {operation : Operation} {after : Program}
      (hproducer : producer.Denotes program operation after) :
      Denotes program (.produce producer) operation after

namespace OperandTree

variable {program after : Program}

/-- What a value adds, with which it is an operand of its type. -/
theorem Denotes.grows {operand : OperandTree} {value : ValueRef} {type : TypeRef}
    (h : operand.Denotes program value type after) (hinterned : program.Interned) :
    after.Interned ∧ program.Grows after ∧ after.HasOperand value type := by
  -- all values are created alike, once their types are there
  have hadd {typed : Program} {created : Value} (htyped : typed.Interned)
      (hgrows : program.Grows typed) (htype : created.ownType? = some type)
      (hrun : Edit.addValue created typed = .ok (value, after)) :
      after.Interned ∧ program.Grows after ∧ after.HasOperand value type := by
    obtain ⟨hadded, hvalue⟩ := (Edit.addValue_yields typed created).of_eq_ok hrun
    exact ⟨hadded.interned htyped, hgrows.trans hadded, _, hvalue, htype⟩
  have htypeByName {name : String} {result : Except TypeError (Option TypeRef)} {typed : Program}
      (hrun : Edit.typeByName name program = .ok (result, typed)) :
      typed.Interned ∧ program.Grows typed := by
    obtain ⟨hadds, htyped, -⟩ := (Edit.typeByName_yields hinterned name).of_eq_ok hrun
    exact ⟨htyped, .of_addsTypes hadds htyped⟩
  cases h with
  | register htype hvalue =>
    obtain ⟨htyped, hgrows⟩ := htypeByName htype
    exact hadd htyped hgrows rfl hvalue
  | global hbound hentry hvalue => exact hadd hinterned (.refl program) rfl hvalue
  | constant htype hliteral hvalue =>
    obtain ⟨htyped, hgrows⟩ := htypeByName htype
    obtain ⟨name, -, hparsed⟩ := query_bind_eq_ok.1 hliteral
    obtain ⟨rfl, -⟩ := Constant.type_of_ofText (Except.ok.inj hparsed)
    exact hadd htyped hgrows rfl hvalue

/-- What values in a row add, with which they are operands of their types. -/
theorem DenotesAll.grows {operands : List OperandTree} {values : List ValueRef}
    {types : List TypeRef} (h : DenotesAll program operands values types after)
    (hinterned : program.Interned) : after.Interned ∧ program.Grows after ∧
      List.Forall₂ after.HasOperand values types := by
  induction h with
  | nil program => exact ⟨hinterned, .refl program, .nil⟩
  | cons hfirst _ ih =>
    obtain ⟨hbetween, hgrows, hvalue⟩ := hfirst.grows hinterned
    obtain ⟨hafter, hgrows', hvalues⟩ := ih hbetween
    exact ⟨hafter, hgrows.trans hgrows', .cons (hvalue.mono hgrows'.toExtends) hvalues⟩

/-- A global only has to be bound, since what it is bound to is always there. -/
theorem denotes_global_iff (h : program.Reachable) (name : Token.OfKind .global) :
    (∃ value type after, (OperandTree.global name).Denotes program value type after) ↔
      ∃ ref, program.globalNamed? name.1.value = some ref := by
  constructor
  · rintro ⟨value, type, after, hdenotes⟩
    cases hdenotes with
    | @global _ ref entry _ _ hbound _ _ => exact ⟨ref, hbound⟩
  · rintro ⟨ref, hbound⟩
    obtain ⟨layout, hbuilt⟩ := h.requested.exists_built
    obtain ⟨-, entry, hentry, -⟩ := (hbuilt.symbols.globalNamed _ ref).1 hbound
    obtain ⟨value, after, hvalue, -⟩ :=
      Edit.addValue_yields program (.globalPointer name.1.value entry.initial.type)
    exact ⟨value, _, after, .global hbound hentry hvalue⟩

end OperandTree

namespace LineReader

variable {state : LineState}

/-! ## What is read has a derivation -/

/-- A token that has been seen to be a keyword is taken as this keyword. -/
theorem take_isWord {word : String} (hword : state.tokens.head?.any (·.isWord word))
    (expected : String) : Step.OnSuccess (take expected) state fun token after =>
      ∃ keyword : Token.Keyword word, token = keyword.1 ∧
        state.tokens = keyword.1 :: after.tokens ∧ after.program = state.program := by
  refine (take_onSuccess expected).mono fun token after hafter => ?_
  obtain ⟨htokens, hprogram⟩ := hafter
  rw [htokens, List.head?_cons, Option.any_some] at hword
  exact ⟨⟨token, hword⟩, rfl, htokens, hprogram⟩

/-- A token that has been seen to be of a class is taken as one of this class. -/
theorem take_isKind {kind : TokenKind} (hkind : state.tokens.head?.any (·.kind == kind))
    (expected : String) : Step.OnSuccess (take expected) state fun token after =>
      ∃ marked : Token.OfKind kind, token = marked.1 ∧
        state.tokens = marked.1 :: after.tokens ∧ after.program = state.program := by
  refine (take_onSuccess expected).mono fun token after hafter => ?_
  obtain ⟨htokens, hprogram⟩ := hafter
  rw [htokens, List.head?_cons, Option.any_some, beq_iff_eq] at hkind
  exact ⟨⟨token, hkind⟩, rfl, htokens, hprogram⟩

/-- A type is the one of its name. -/
theorem type_denotes : Step.OnSuccess type state fun ref after => ∃ token,
    state.tokens = token :: after.tokens ∧
      Edit.typeByName token.value state.program = .ok (.ok (some ref), after.program) := by
  refine (take_onSuccess "type").bind fun token taken htaken => ?_
  obtain ⟨htokens, hprogram⟩ := htaken
  refine (edit_onSuccess fun _ _ hrun => hrun).bind fun result after hafter => ?_
  obtain ⟨hrest, hrun⟩ := hafter
  split
  · refine .pure ⟨token, by rw [htokens, hrest], ?_⟩
    rw [← hprogram]
    exact hrun
  · exact reject_onSuccess
  · exact reject_onSuccess

/-- A value has been read off the front by one of its derivations. -/
def DerivesOperand (state : LineState) (value : ValueRef) (after : LineState) : Prop :=
  ∃ (operand : OperandTree) (type : TypeRef), state.tokens = operand.tokens ++ after.tokens ∧
    operand.Denotes state.program value type after.program

/-- A register is read off the front, with its type behind it. -/
theorem register_denotes (hregister : state.tokens.head?.any (·.kind == .register)) :
    Step.OnSuccess (do
      let token ← take "register"
      let ref ← type
      edit (Edit.addValue (.register token.value ref))) state (DerivesOperand state) := by
  refine (take_isKind hregister _).bind fun _ taken htaken => ?_
  obtain ⟨name, rfl, htokens, hprogram⟩ := htaken
  refine type_denotes.bind fun ref typed htyped => ?_
  obtain ⟨type, htype, hrun⟩ := htyped
  refine (edit_onSuccess fun _ _ hvalue => hvalue).mono fun value after hafter => ?_
  obtain ⟨hrest, hvalue⟩ := hafter
  rw [hprogram] at hrun
  refine ⟨.register name type, ref, ?_, .register hrun hvalue⟩
  rw [htokens, htype, hrest]
  rfl

/-- A global is read off the front. -/
theorem global_denotes (hglobal : state.tokens.head?.any (·.kind == .global)) :
    Step.OnSuccess (do
      let token ← take "global"
      match (← get).program.globalNamed? token.value with
      | none => reject (.unknownGlobal token)
      | some global =>
        let entry ← ask fun program => program.global global
        edit (Edit.addValue (.globalPointer token.value entry.initial.type))) state
      (DerivesOperand state) := by
  refine (take_isKind hglobal _).bind fun _ taken htaken => ?_
  obtain ⟨name, rfl, htokens, hprogram⟩ := htaken
  refine .get ?_
  split
  · exact reject_onSuccess
  next global hbound =>
  refine (ask_onSuccess _).bind fun entry asked hasked => ?_
  obtain ⟨rfl, hentry⟩ := hasked
  refine (edit_onSuccess fun _ _ hvalue => hvalue).mono fun value after hafter => ?_
  obtain ⟨hrest, hvalue⟩ := hafter
  rw [hprogram] at hbound hentry hvalue
  refine ⟨.global name, _, ?_, .global hbound (found_eq_ok.1 hentry) hvalue⟩
  rw [htokens, hrest]
  rfl

/-- A constant is read off the front. -/
theorem constant_denotes (hword : state.tokens.head?.any (·.isWord "const")) :
    Step.OnSuccess constant state fun constant after =>
      ∃ (keyword : Token.Keyword "const") (type literal : Token) (ref : TypeRef),
        state.tokens = keyword.1 :: type :: literal :: after.tokens ∧
          Edit.typeByName type.value state.program = .ok (.ok (some ref), after.program) ∧
          after.program.constantOfText ref literal.value = .ok (.ok constant) := by
  refine (takeWord_onSuccess "const").bind fun keyword behind hbehind => ?_
  obtain ⟨hkeyword, hprogram⟩ := hbehind
  rw [hkeyword, List.head?_cons, Option.any_some] at hword
  refine type_denotes.bind fun ref typed htyped => ?_
  obtain ⟨type, htype, hrun⟩ := htyped
  refine (take_onSuccess "literal").bind fun literal taken htaken => ?_
  obtain ⟨hliteral, hsame⟩ := htaken
  refine (ask_onSuccess _).bind fun result after hafter => ?_
  obtain ⟨rfl, hread⟩ := hafter
  rw [hprogram, ← hsame] at hrun
  split
  · exact .pure ⟨⟨keyword, hword⟩, type, literal, ref, by rw [hkeyword, htype, hliteral], hrun,
      hread⟩
  · exact reject_onSuccess

/-- A constant operand is read off the front. -/
theorem literal_denotes (hword : state.tokens.head?.any (·.isWord "const")) :
    Step.OnSuccess (do
      let constant ← constant
      edit (Edit.addValue (.constant constant))) state (DerivesOperand state) := by
  refine (constant_denotes hword).bind fun constant read hread => ?_
  obtain ⟨keyword, type, literal, ref, htokens, htype, hliteral⟩ := hread
  refine (edit_onSuccess fun _ _ hvalue => hvalue).mono fun value after hafter => ?_
  obtain ⟨hrest, hvalue⟩ := hafter
  refine ⟨.constant keyword type literal, ref, ?_, .constant htype hliteral hvalue⟩
  rw [htokens, hrest]
  rfl

/-- A value is read off the front. -/
theorem value_denotes : Step.OnSuccess value state (DerivesOperand state) := by
  refine .bind_of_ok (atKind_apply .register state) ?_
  split
  · next hregister => exact register_denotes hregister
  refine .bind_of_ok (atKind_apply .global state) ?_
  split
  · next hglobal => exact global_denotes hglobal
  refine .bind_of_ok (atWord_apply "const" state) ?_
  split
  · next hword => exact literal_denotes hword
  · exact unexpected_onSuccess

/-- Values are read up to the end of the line, if there are no more of them than tokens. -/
theorem valuesWithin_denotes {count : Nat} (hcount : state.tokens.length ≤ count) :
    Step.OnSuccess (valuesWithin count) state fun values after => ∃ operands types,
      state.tokens = OperandTree.listTokens operands ∧ after.tokens = [] ∧
        OperandTree.DenotesAll state.program operands values types after.program := by
  induction count generalizing state with
  | zero =>
    have htokens : state.tokens = [] := List.length_eq_zero_iff.1 (Nat.le_zero.1 hcount)
    exact .pure ⟨[], [], htokens, htokens, .nil state.program⟩
  | succ count ih =>
    refine .bind_of_ok (atEnd_apply state) ?_
    split
    · next hend =>
      have htokens : state.tokens = [] := List.isEmpty_iff.1 hend
      exact .pure ⟨[], [], htokens, htokens, .nil state.program⟩
    refine value_denotes.bind fun value between hbetween => ?_
    obtain ⟨operand, type, htokens, hfirst⟩ := hbetween
    -- the value has taken at least one token, so the bound goes on holding
    have hpos : 0 < operand.tokens.length := List.length_pos_iff.2 operand.tokens_ne_nil
    have hlength := congrArg List.length htokens
    rw [List.length_append] at hlength
    refine (ih (by omega)).bind fun values after hafter => .pure ?_
    obtain ⟨operands, types, hrest, hend, hall⟩ := hafter
    exact ⟨operand :: operands, type :: types, by rw [htokens, hrest]; rfl, hend,
      .cons hfirst hall⟩

/-- A jump target is read off the front. -/
theorem target_denotes : Step.OnSuccess target state fun name after =>
    ∃ token : Token.Target, state.tokens = token.1 :: after.tokens ∧ name = token.1.value ∧
      after.program = state.program := by
  refine .bind_of_ok (atKind_apply .block state) (.bind_of_ok (atKind_apply .identifier state)
    (.bind_of_ok (atKind_apply .number state) ?_))
  split
  · next hkind =>
    refine (take_onSuccess "label").bind fun token after hafter => .pure ?_
    obtain ⟨htokens, hprogram⟩ := hafter
    rw [htokens] at hkind
    exact ⟨⟨token, by simpa [or_assoc] using hkind⟩, htokens, rfl, hprogram⟩
  · exact unexpected_onSuccess

/-- A call is created if a callee takes the types of its arguments. -/
theorem callOf_denotes {name : String} {values : List ValueRef} {types : List TypeRef}
    (hvalues : List.Forall₂ state.program.HasOperand values types) :
    Step.OnSuccess (callOf name values) state fun ref after => ∃ callee,
      state.program.resolve? name types = .ok (some callee) ∧ after.tokens = state.tokens ∧
        Edit.addInstruction (.call callee values) state.program = .ok (ref, after.program) := by
  refine .bind_of_ok (mapM_valueType (hvalues.imp fun _ _ hvalue => hvalue.valueType_eq)) ?_
  rw [mapM_id_map_some]
  refine (ask_onSuccess _).bind fun callee? asked hasked => ?_
  obtain ⟨rfl, hcallee⟩ := hasked
  cases callee? with
  | some callee =>
    exact (edit_onSuccess fun _ _ hadded => hadded).mono fun ref after hafter =>
      ⟨callee, hcallee, hafter⟩
  | none =>
    -- the types are named for the message, and then the line is rejected
    have hanything : Step.OnSuccess (typeNames (types.map some)) asked fun _ _ => True :=
      fun _ _ _ => trivial
    exact hanything.bind fun _ _ _ => .get reject_onSuccess

/-- An instruction with a result has been read off the front by one of its derivations. -/
def DerivesProducer (state : LineState) (ref : InstructionRef) (after : LineState) : Prop :=
  ∃ (producer : ProducerTree) (operation : Operation) (operands : Program),
    state.tokens = producer.tokens ++ after.tokens ∧
      producer.Denotes state.program operation operands ∧
      Edit.addInstruction operation operands = .ok (ref, after.program)

/-- A call is read off the front. -/
theorem call_denotes (hinterned : state.program.Interned)
    (hcall : state.tokens.head?.any (·.isWord "call")) :
    Step.OnSuccess call state (DerivesProducer state) := by
  refine (take_isWord hcall _).bind fun _ behind hbehind => ?_
  obtain ⟨keyword, -, hkeyword, hprogram⟩ := hbehind
  refine (take_onSuccess _).bind fun name named hnamed => ?_
  obtain ⟨hname, hsame⟩ := hnamed
  refine Step.OnSuccess.bind (.get (valuesWithin_denotes le_rfl)) fun values read hread => ?_
  obtain ⟨arguments, types, harguments, hend, hall⟩ := hread
  rw [hsame, hprogram] at hall
  -- the arguments have kept the types that they were read with
  obtain ⟨-, -, hvalues⟩ := hall.grows hinterned
  refine (callOf_denotes hvalues).mono fun ref after hafter => ?_
  obtain ⟨callee, hcallee, htokens, hadded⟩ := hafter
  refine ⟨.call keyword name arguments, _, _, ?_, .call hall hcallee, hadded⟩
  rw [hkeyword, hname, harguments, htokens, hend, List.append_nil]
  rfl

/-- An allocation is read off the front. -/
theorem alloc_denotes (halloc : state.tokens.head?.any (·.isWord "alloc")) :
    Step.OnSuccess (do
      let _ ← take "`alloc`"
      edit (Edit.addInstruction (.alloc (← type)))) state (DerivesProducer state) := by
  refine (take_isWord halloc _).bind fun _ behind hbehind => ?_
  obtain ⟨keyword, -, hkeyword, hprogram⟩ := hbehind
  refine type_denotes.bind fun ref typed htyped => ?_
  obtain ⟨type, htype, hrun⟩ := htyped
  rw [hprogram] at hrun
  refine (edit_onSuccess fun _ _ hadded => hadded).mono fun inner after hafter => ?_
  obtain ⟨htokens, hadded⟩ := hafter
  refine ⟨.alloc keyword type, _, _, ?_, .alloc hrun, hadded⟩
  rw [hkeyword, htype, htokens]
  rfl

/-- A load is read off the front. -/
theorem load_denotes (hload : state.tokens.head?.any (·.isWord "load")) :
    Step.OnSuccess (do
      let _ ← take "`load`"
      edit (Edit.addInstruction (.load (← value)))) state (DerivesProducer state) := by
  refine (take_isWord hload _).bind fun _ behind hbehind => ?_
  obtain ⟨keyword, -, hkeyword, hprogram⟩ := hbehind
  refine value_denotes.bind fun pointer read hread => ?_
  obtain ⟨operand, type, hoperand, hdenotes⟩ := hread
  rw [hprogram] at hdenotes
  refine (edit_onSuccess fun _ _ hadded => hadded).mono fun inner after hafter => ?_
  obtain ⟨htokens, hadded⟩ := hafter
  refine ⟨.load keyword operand, _, _, ?_, .load hdenotes, hadded⟩
  rw [hkeyword, hoperand, htokens]
  rfl

/-- An instruction with a result is read off the front. -/
theorem producer_denotes (hinterned : state.program.Interned) :
    Step.OnSuccess producer state (DerivesProducer state) := by
  refine .bind_of_ok (atWord_apply "call" state) ?_
  split
  · next hcall => exact call_denotes hinterned hcall
  refine .bind_of_ok (atWord_apply "alloc" state) ?_
  split
  · next halloc => exact alloc_denotes halloc
  refine .bind_of_ok (atWord_apply "load" state) ?_
  split
  · next hload => exact load_denotes hload
  · exact unexpected_onSuccess

/-- A line has been read off the front by one of its derivations. -/
def DerivesLine (state : LineState) (ref : InstructionRef) (after : LineState) : Prop :=
  ∃ (line : LineTree) (operation : Operation) (operands : Program),
    state.tokens = line.tokens ++ after.tokens ∧
      line.Denotes state.program operation operands ∧
      Edit.addInstruction operation operands = .ok (ref, after.program)

/-- The last step of a line creates the instruction that the line denotes. -/
theorem addInstruction_denotes {before : LineState} (line : LineTree) {operation : Operation}
    (htokens : state.tokens = line.tokens ++ before.tokens)
    (hdenotes : line.Denotes state.program operation before.program) :
    Step.OnSuccess (edit (Edit.addInstruction operation)) before (DerivesLine state) := by
  refine (edit_onSuccess fun _ _ hadded => hadded).mono fun ref after hafter => ?_
  obtain ⟨hrest, hadded⟩ := hafter
  exact ⟨line, operation, before.program, by rw [htokens, hrest], hdenotes, hadded⟩

/-- A register is set to the result of an instruction, or to a value. -/
theorem set_denotes (hinterned : state.program.Interned)
    (hregister : state.tokens.head?.any (·.kind == .register)) :
    Step.OnSuccess (do
      let name := (← take "register").value
      edit (Edit.addInstruction (.set name (← assigned)))) state (DerivesLine state) := by
  refine (take_isKind hregister _).bind fun _ named hnamed => ?_
  obtain ⟨name, rfl, hname, hprogram⟩ := hnamed
  rw [← hprogram] at hinterned
  rw [assigned, atProducer]
  simp only [bind_assoc, pure_bind]
  refine .bind_of_ok (atWord_apply "call" named) (.bind_of_ok (atWord_apply "alloc" named)
    (.bind_of_ok (atWord_apply "load" named) ?_))
  split
  · -- the instruction is created, and only then a value for its result
    simp only [bind_assoc]
    refine (producer_denotes hinterned).bind fun inner made hmade => ?_
    obtain ⟨producer, operation, operands, hproducer, hdenotes, hinner⟩ := hmade
    refine (edit_onSuccess fun _ _ hvalue => hvalue).bind fun value valued hvalued => ?_
    obtain ⟨htokens, hvalue⟩ := hvalued
    rw [hprogram] at hdenotes
    refine addInstruction_denotes (.setResult name producer) ?_ (.setResult hdenotes hinner hvalue)
    rw [hname, hproducer, htokens]
    rfl
  · refine value_denotes.bind fun value valued hvalued => ?_
    obtain ⟨operand, type, hoperand, hdenotes⟩ := hvalued
    rw [hprogram] at hdenotes
    refine addInstruction_denotes (.setValue name operand) ?_ (.setValue hdenotes)
    rw [hname, hoperand]
    rfl

/-- The function is left, with a value or without. -/
theorem ret_denotes (hret : state.tokens.head?.any (·.isWord "ret")) :
    Step.OnSuccess (do
      let _ ← take "`ret`"
      let operand ← if ← atEnd then pure none else some <$> value
      edit (Edit.addInstruction (.ret operand))) state (DerivesLine state) := by
  refine (take_isWord hret _).bind fun _ behind hbehind => ?_
  obtain ⟨keyword, -, hkeyword, hprogram⟩ := hbehind
  refine .bind_of_ok (atEnd_apply behind) ?_
  split
  · refine addInstruction_denotes (.ret keyword) hkeyword ?_
    rw [hprogram]
    exact .ret
  · refine (Step.OnSuccess.of_map value_denotes).bind fun value? valued hvalued => ?_
    obtain ⟨value, rfl, operand, type, hoperand, hdenotes⟩ := hvalued
    rw [hprogram] at hdenotes
    refine addInstruction_denotes (.retValue keyword operand) ?_ (.retValue hdenotes)
    rw [hkeyword, hoperand]
    rfl

/-- A value is stored. -/
theorem store_denotes (hstore : state.tokens.head?.any (·.isWord "store")) :
    Step.OnSuccess (do
      let _ ← take "`store`"
      let pointer ← value
      edit (Edit.addInstruction (.store pointer (← value)))) state (DerivesLine state) := by
  refine (take_isWord hstore _).bind fun _ behind hbehind => ?_
  obtain ⟨keyword, -, hkeyword, hprogram⟩ := hbehind
  refine value_denotes.bind fun pointer pointed hpointed => ?_
  obtain ⟨target, pointerType, htarget, hpointer⟩ := hpointed
  refine value_denotes.bind fun value valued hvalued => ?_
  obtain ⟨operand, type, hoperand, hvalue⟩ := hvalued
  rw [hprogram] at hpointer
  refine addInstruction_denotes (.store keyword target operand) ?_
    (.store hpointer hvalue)
  rw [hkeyword, htarget, hoperand, ← List.append_assoc]
  rfl

/-- Another label is gone on at. -/
theorem jump_denotes (hjump : state.tokens.head?.any (·.isWord "jmp")) :
    Step.OnSuccess (do
      let _ ← take "`jmp`"
      edit (Edit.addInstruction (.jump (← target)))) state (DerivesLine state) := by
  refine (take_isWord hjump _).bind fun _ behind hbehind => ?_
  obtain ⟨keyword, -, hkeyword, hprogram⟩ := hbehind
  refine target_denotes.bind fun name read hread => ?_
  obtain ⟨target, htarget, rfl, hsame⟩ := hread
  refine addInstruction_denotes (.jump keyword target) ?_ ?_
  · rw [hkeyword, htarget]
    rfl
  · rw [hsame, hprogram]
    exact .jump

/-- One of two labels is gone on at. -/
theorem branch_denotes (hbranch : state.tokens.head?.any (·.isWord "cjmp")) :
    Step.OnSuccess (do
      let _ ← take "`cjmp`"
      let condition ← value
      let whenTrue ← target
      edit (Edit.addInstruction (.branch condition whenTrue (← target)))) state
      (DerivesLine state) := by
  refine (take_isWord hbranch _).bind fun _ behind hbehind => ?_
  obtain ⟨keyword, -, hkeyword, hprogram⟩ := hbehind
  refine value_denotes.bind fun value valued hvalued => ?_
  obtain ⟨condition, type, hcondition, hdenotes⟩ := hvalued
  refine target_denotes.bind fun name first hfirst => ?_
  obtain ⟨whenTrue, htrue, rfl, hsame⟩ := hfirst
  refine target_denotes.bind fun name read hread => ?_
  obtain ⟨whenFalse, hfalse, rfl, hsame'⟩ := hread
  rw [hprogram, ← hsame, ← hsame'] at hdenotes
  refine addInstruction_denotes (.branch keyword condition whenTrue whenFalse) ?_
    (.branch hdenotes)
  rw [hkeyword, hcondition, htrue, hfalse]
  simp [LineTree.tokens]

/-- An instruction is read off the front. -/
theorem instruction_denotes (hinterned : state.program.Interned) :
    Step.OnSuccess instruction state (DerivesLine state) := by
  refine .bind_of_ok (atKind_apply .register state) ?_
  split
  · next hregister => exact set_denotes hinterned hregister
  refine .bind_of_ok (atWord_apply "ret" state) ?_
  split
  · next hret => exact ret_denotes hret
  refine .bind_of_ok (atWord_apply "store" state) ?_
  split
  · next hstore => exact store_denotes hstore
  refine .bind_of_ok (atWord_apply "jmp" state) ?_
  split
  · next hjump => exact jump_denotes hjump
  refine .bind_of_ok (atWord_apply "cjmp" state) ?_
  split
  · next hbranch => exact branch_denotes hbranch
  · refine (producer_denotes hinterned).mono fun ref after hafter => ?_
    obtain ⟨producer, operation, operands, htokens, hdenotes, hadded⟩ := hafter
    exact ⟨.produce producer, operation, operands, htokens, .produce hdenotes, hadded⟩

/-- A whole line that is read has a derivation. -/
theorem instructionLine_denotes (hinterned : state.program.Interned) :
    Step.OnSuccess instructionLine state fun ref after =>
      after.tokens = [] ∧ DerivesLine state ref after := by
  refine (instruction_denotes hinterned).bind fun ref read hread => ?_
  refine finish_onSuccess.bind fun _ after hafter => .pure ?_
  obtain ⟨rfl, hend⟩ := hafter
  exact ⟨hend, hread⟩

/-! ## What has a derivation is read -/

section Reads

variable {α : Type} {number : Nat} {token : Token} {rest : List Token} {program after : Program}

/-! The tests for the next token, once it is known, leave one way to go on. -/

/-- A token of the class that is asked for decides for the one way. -/
theorem atKind_of_eq {kind : TokenKind} {yes no : LineReader α} (h : token.kind = kind) :
    (do if ← atKind kind then yes else no) ⟨number, token :: rest, program⟩ =
      yes ⟨number, token :: rest, program⟩ := by
  rw [Step.bind_of_ok (atKind_apply _ _), List.head?_cons, Option.any_some, h, beq_self_eq_true,
    if_pos rfl]

/-- A token of another class decides for the other way. -/
theorem atKind_of_ne {kind : TokenKind} {yes no : LineReader α} (h : token.kind ≠ kind) :
    (do if ← atKind kind then yes else no) ⟨number, token :: rest, program⟩ =
      no ⟨number, token :: rest, program⟩ := by
  rw [Step.bind_of_ok (atKind_apply _ _), List.head?_cons, Option.any_some, beq_false_of_ne h,
    if_neg Bool.false_ne_true]

/-- A keyword that is asked for decides for the one way. -/
theorem atWord_of_isWord {word : String} {yes no : LineReader α} (h : token.isWord word) :
    (do if ← atWord word then yes else no) ⟨number, token :: rest, program⟩ =
      yes ⟨number, token :: rest, program⟩ := by
  rw [Step.bind_of_ok (atWord_apply _ _), List.head?_cons, Option.any_some, if_pos h]

/-- Any other token decides for the other way. -/
theorem atWord_of_not {word : String} {yes no : LineReader α} (h : ¬ token.isWord word) :
    (do if ← atWord word then yes else no) ⟨number, token :: rest, program⟩ =
      no ⟨number, token :: rest, program⟩ := by
  rw [Step.bind_of_ok (atWord_apply _ _), List.head?_cons, Option.any_some, if_neg h]

/-- A keyword is asked for other keywords in vain. -/
theorem atWord_of_ne {word other : String} (keyword : Token.Keyword word) (h : word ≠ other)
    {yes no : LineReader α} :
    (do if ← atWord other then yes else no) ⟨number, keyword.1 :: rest, program⟩ =
      no ⟨number, keyword.1 :: rest, program⟩ :=
  atWord_of_not (by simpa using h)

/-- An edit leaves the tokens alone. -/
theorem edit_at {step : Edit α} {answer : α} (h : step program = .ok (answer, after)) :
    edit step ⟨number, rest, program⟩ = .ok (answer, ⟨number, rest, after⟩) :=
  edit_of_ok h

/-- A token that is not the end is taken. -/
theorem take_at (expected : String) (hkind : token.kind ≠ .eof) :
    take expected ⟨number, token :: rest, program⟩ = .ok (token, ⟨number, rest, program⟩) :=
  take_of_cons expected rfl hkind

/-- The name of a type is read as the type. -/
theorem type_of_typeByName {ref : TypeRef} (hkind : token.kind ≠ .eof)
    (htype : Edit.typeByName token.value program = .ok (.ok (some ref), after)) :
    type ⟨number, token :: rest, program⟩ = .ok (ref, ⟨number, rest, after⟩) := by
  rw [type, Step.bind_of_ok (take_at _ hkind)]
  exact Step.bind_of_ok (edit_at htype)

/-- A constant is read if its literal is one of its type. -/
theorem constant_of_literal {keyword : Token.Keyword "const"} {type literal : Token}
    {ref : TypeRef} {constant : Constant} (htypeKind : type.kind ≠ .eof)
    (hliteralKind : literal.kind ≠ .eof)
    (htype : Edit.typeByName type.value program = .ok (.ok (some ref), after))
    (hliteral : after.constantOfText ref literal.value = .ok (.ok constant)) :
    LineReader.constant ⟨number, keyword.1 :: type :: literal :: rest, program⟩ =
      .ok (constant, ⟨number, rest, after⟩) := by
  have hword : takeWord "const" ⟨number, keyword.1 :: type :: literal :: rest, program⟩ =
      .ok (keyword.1, ⟨number, type :: literal :: rest, program⟩) := by
    exact (atWord_of_isWord keyword.2).trans (take_at _ (keyword.kind_ne (by decide)))
  rw [LineReader.constant, Step.bind_of_ok hword,
    Step.bind_of_ok (type_of_typeByName htypeKind htype), Step.bind_of_ok (take_at _ hliteralKind)]
  have hasked : ask (fun program => program.constantOfText ref literal.value)
      ⟨number, rest, after⟩ = .ok (.ok constant, ⟨number, rest, after⟩) := ask_of_ok hliteral
  exact Step.bind_of_ok hasked

/-- A value is read as what it denotes. -/
theorem value_of_denotes {operand : OperandTree} {ref : ValueRef} {type : TypeRef}
    (h : operand.Denotes program ref type after)
    (hmarks : ∀ token ∈ operand.tokens, token.kind ≠ .eof) :
    value ⟨number, operand.tokens ++ rest, program⟩ = .ok (ref, ⟨number, rest, after⟩) := by
  cases h with
  | @register name type ref value typed after htype hvalue =>
    have hname : name.1.kind ≠ .eof := hmarks name.1 (.head _)
    have htypeKind : type.kind ≠ .eof := hmarks type (.tail _ (.head _))
    show LineReader.value ⟨number, name.1 :: type :: rest, program⟩ = _
    -- each test of the reader is passed or refused by the first token of the tree
    rw [LineReader.value, atKind_of_eq name.2, Step.bind_of_ok (take_at _ hname),
      Step.bind_of_ok (type_of_typeByName htypeKind htype), edit_at hvalue]
  | @global name ref entry value after hbound hentry hvalue =>
    have hname : name.1.kind ≠ .eof := hmarks name.1 (.head _)
    have hregister : name.1.kind ≠ .register := by simp [name.2]
    show LineReader.value ⟨number, name.1 :: rest, program⟩ = _
    rw [LineReader.value, atKind_of_ne hregister, atKind_of_eq name.2,
      Step.bind_of_ok (take_at _ hname), Step.bind_of_ok (Step.get_apply _), hbound]
    exact (Step.bind_of_ok (ask_of_ok (found_eq_ok.2 hentry))).trans (edit_at hvalue)
  | @constant keyword type literal ref constant value typed after htype hliteral hvalue =>
    have htypeKind : type.kind ≠ .eof := hmarks type (.tail _ (.head _))
    have hliteralKind : literal.kind ≠ .eof := hmarks literal (.tail _ (.tail _ (.head _)))
    show LineReader.value ⟨number, keyword.1 :: type :: literal :: rest, program⟩ = _
    rw [LineReader.value, atKind_of_ne (keyword.kind_ne (by decide)),
      atKind_of_ne (keyword.kind_ne (by decide)), atWord_of_isWord keyword.2,
      Step.bind_of_ok (constant_of_literal htypeKind hliteralKind htype hliteral), edit_at hvalue]

/-- The last value of a line is read as what it denotes. -/
theorem value_of_denotes_last {operand : OperandTree} {ref : ValueRef} {type : TypeRef}
    (h : operand.Denotes program ref type after)
    (hmarks : ∀ token ∈ operand.tokens, token.kind ≠ .eof) :
    value ⟨number, operand.tokens, program⟩ = .ok (ref, ⟨number, [], after⟩) := by
  have hread : value ⟨number, operand.tokens ++ [], program⟩ = .ok (ref, ⟨number, [], after⟩) :=
    value_of_denotes h hmarks
  rwa [List.append_nil] at hread

/-- Values are read up to the end of the line as what they denote. -/
theorem valuesWithin_of_denotesAll {operands : List OperandTree} {refs : List ValueRef}
    {types : List TypeRef} (h : OperandTree.DenotesAll program operands refs types after)
    (hmarks : ∀ token ∈ OperandTree.listTokens operands, token.kind ≠ .eof) {count : Nat}
    (hcount : (OperandTree.listTokens operands).length ≤ count) :
    valuesWithin count ⟨number, OperandTree.listTokens operands, program⟩ =
      .ok (refs, ⟨number, [], after⟩) := by
  induction h generalizing count with
  | nil program => cases count <;> rfl
  | @cons program between after operand operands value values type types hfirst _ ih =>
    rw [OperandTree.listTokens_cons] at hmarks hcount ⊢
    rw [List.forall_mem_append] at hmarks
    -- the value has at least one token, so there is one step left for it
    have hpos : 0 < operand.tokens.length := List.length_pos_iff.2 operand.tokens_ne_nil
    rw [List.length_append] at hcount
    obtain ⟨count, rfl⟩ : ∃ fewer, count = fewer + 1 := ⟨count - 1, by omega⟩
    have hmore : (operand.tokens ++ OperandTree.listTokens operands).isEmpty = false := by
      simp [operand.tokens_ne_nil]
    rw [valuesWithin, Step.bind_of_ok (atEnd_apply _), hmore, if_neg Bool.false_ne_true,
      Step.bind_of_ok (value_of_denotes hfirst hmarks.1)]
    exact Step.bind_of_ok (ih hmarks.2 (by omega))

/-- A target is read as its name. -/
theorem target_at {label : Token.Target} (hkind : label.1.kind ≠ .eof) :
    target ⟨number, label.1 :: rest, program⟩ =
      .ok (label.1.value, ⟨number, rest, program⟩) := by
  have hlabel : (label.1.kind == .block || label.1.kind == .identifier ||
      label.1.kind == .number) = true := by
    simpa [or_assoc] using label.2
  rw [target, Step.bind_of_ok (atKind_apply _ _), Step.bind_of_ok (atKind_apply _ _),
    Step.bind_of_ok (atKind_apply _ _)]
  simp only [List.head?_cons, Option.any_some, hlabel, if_true]
  exact Step.bind_of_ok (take_at _ hkind)

/-- A call with a callee is created. -/
theorem callOf_of_resolve? {name : String} {refs : List ValueRef} {types : List TypeRef}
    {callee : FunctionRef} {ref : InstructionRef}
    (hrefs : List.Forall₂ program.HasOperand refs types)
    (hcallee : program.resolve? name types = .ok (some callee))
    (hadded : Edit.addInstruction (.call callee refs) program = .ok (ref, after)) :
    callOf name refs ⟨number, rest, program⟩ = .ok (ref, ⟨number, rest, after⟩) := by
  have hasked : ask (fun program => program.resolve? name types) ⟨number, rest, program⟩ =
      .ok (some callee, ⟨number, rest, program⟩) := ask_of_ok hcallee
  rw [callOf, Step.bind_of_ok (mapM_valueType (hrefs.imp fun _ _ his => his.valueType_eq)),
    mapM_id_map_some]
  exact (Step.bind_of_ok hasked).trans (edit_at hadded)

/-- An instruction with a result is read as what it denotes. Nothing stands behind it, since a call
goes on to the end of its line. -/
theorem producer_of_denotes {tree : ProducerTree} {operation : Operation} {operands : Program}
    {ref : InstructionRef} (hinterned : program.Interned)
    (h : tree.Denotes program operation operands)
    (hmarks : ∀ token ∈ tree.tokens, token.kind ≠ .eof)
    (hadded : Edit.addInstruction operation operands = .ok (ref, after)) :
    producer ⟨number, tree.tokens, program⟩ = .ok (ref, ⟨number, [], after⟩) := by
  cases h with
  | @call keyword name arguments refs types callee operands harguments hcallee =>
    simp only [ProducerTree.tokens, List.forall_mem_cons] at hmarks
    obtain ⟨hkeyword, hname, hrest⟩ := hmarks
    obtain ⟨-, -, hrefs⟩ := harguments.grows hinterned
    have hread : values ⟨number, OperandTree.listTokens arguments, program⟩ =
        .ok (refs, ⟨number, [], operands⟩) :=
      (Step.bind_of_ok (Step.get_apply _)).trans (valuesWithin_of_denotesAll harguments hrest le_rfl)
    -- the tokens of the tree, written out as the reader takes them
    show producer ⟨number, keyword.1 :: name :: OperandTree.listTokens arguments, program⟩ = _
    rw [producer, atWord_of_isWord keyword.2, call, Step.bind_of_ok (take_at _ hkeyword),
      Step.bind_of_ok (take_at _ hname), Step.bind_of_ok hread,
      callOf_of_resolve? hrefs hcallee hadded]
  | @alloc keyword type ref operands htype =>
    simp only [ProducerTree.tokens, List.forall_mem_cons] at hmarks
    obtain ⟨hkeyword, htypeKind, -⟩ := hmarks
    show producer ⟨number, [keyword.1, type], program⟩ = _
    rw [producer, atWord_of_ne keyword (by decide), atWord_of_isWord keyword.2,
      Step.bind_of_ok (take_at _ hkeyword), Step.bind_of_ok (type_of_typeByName htypeKind htype),
      edit_at hadded]
  | @load keyword pointer value type operands hpointer =>
    simp only [ProducerTree.tokens, List.forall_mem_cons] at hmarks
    obtain ⟨hkeyword, hoperand⟩ := hmarks
    show producer ⟨number, keyword.1 :: pointer.tokens, program⟩ = _
    rw [producer, atWord_of_ne keyword (by decide), atWord_of_ne keyword (by decide),
      atWord_of_isWord keyword.2, Step.bind_of_ok (take_at _ hkeyword),
      Step.bind_of_ok (value_of_denotes_last hpointer hoperand), edit_at hadded]

/-- The keyword of an instruction with a result tells it from a value. -/
theorem atProducer_of_producer (tree : ProducerTree) :
    atProducer ⟨number, tree.tokens, program⟩ = .ok (true, ⟨number, tree.tokens, program⟩) := by
  obtain ⟨first, rest, htokens, hfirst⟩ := tree.exists_tokens
  have hword : (first.isWord "call" || first.isWord "alloc" || first.isWord "load") = true := by
    rcases tree.word_eq with hcall | halloc | hload
    · simp [hcall ▸ hfirst]
    · simp [halloc ▸ hfirst]
    · simp [hload ▸ hfirst]
  rw [htokens, ← hword]
  rfl

/-- An operand does not start as an instruction with a result does. -/
theorem atProducer_of_operand (tree : OperandTree) :
    atProducer ⟨number, tree.tokens, program⟩ = .ok (false, ⟨number, tree.tokens, program⟩) := by
  have hword : ∃ first rest, tree.tokens = first :: rest ∧
      (first.isWord "call" || first.isWord "alloc" || first.isWord "load") = false := by
    cases tree with
    | register name type => exact ⟨_, _, rfl, by simp [Token.isWord, name.2]⟩
    | global name => exact ⟨_, _, rfl, by simp [Token.isWord, name.2]⟩
    | constant keyword type literal => exact ⟨_, _, rfl, by simp⟩
  obtain ⟨first, rest, htokens, hword⟩ := hword
  rw [htokens, ← hword]
  rfl

/-- The keyword of an instruction with a result is none of a line of another form. -/
theorem instruction_of_producer (tree : ProducerTree) :
    instruction ⟨number, tree.tokens, program⟩ = producer ⟨number, tree.tokens, program⟩ := by
  obtain ⟨first, rest, htokens, hfirst⟩ := tree.exists_tokens
  have hkind : first.kind ≠ .register := Token.Keyword.kind_ne ⟨first, hfirst⟩ (by decide)
  have hother (word : String) (hword : word ∉ ["call", "alloc", "load"]) :
      ¬ first.isWord word := by
    intro h
    rw [← (Token.isWord_iff.1 h).2, (Token.isWord_iff.1 hfirst).2] at hword
    exact hword (by simpa using tree.word_eq)
  rw [htokens, instruction, atKind_of_ne hkind, atWord_of_not (hother _ (by decide)),
    atWord_of_not (hother _ (by decide)), atWord_of_not (hother _ (by decide)),
    atWord_of_not (hother _ (by decide))]

/-- The result of an instruction is read as what a register is set to. -/
theorem assigned_of_producer {tree : ProducerTree} {operation : Operation}
    {operands made : Program} {inner : InstructionRef} {value : ValueRef}
    (hinterned : program.Interned) (hproducer : tree.Denotes program operation operands)
    (hmarks : ∀ token ∈ tree.tokens, token.kind ≠ .eof)
    (hinner : Edit.addInstruction operation operands = .ok (inner, made))
    (hvalue : Edit.resultValue inner made = .ok (value, after)) :
    assigned ⟨number, tree.tokens, program⟩ = .ok (value, ⟨number, [], after⟩) := by
  rw [assigned, Step.bind_of_ok (atProducer_of_producer tree), if_pos rfl,
    Step.bind_of_ok (producer_of_denotes hinterned hproducer hmarks hinner), edit_at hvalue]

/-- An operand is read as what a register is set to. -/
theorem assigned_of_operand {tree : OperandTree} {value : ValueRef} {type : TypeRef}
    (hoperand : tree.Denotes program value type after)
    (hmarks : ∀ token ∈ tree.tokens, token.kind ≠ .eof) :
    assigned ⟨number, tree.tokens, program⟩ = .ok (value, ⟨number, [], after⟩) := by
  rw [assigned, Step.bind_of_ok (atProducer_of_operand tree), if_neg Bool.false_ne_true,
    value_of_denotes_last hoperand hmarks]

/-- A register is set to what is read behind it. -/
theorem instruction_of_assigned {name : Token.OfKind .register} {value : ValueRef}
    {ref : InstructionRef} {built : Program} (hname : name.1.kind ≠ .eof)
    (hassigned : assigned ⟨number, rest, program⟩ = .ok (value, ⟨number, [], built⟩))
    (hadded : Edit.addInstruction (.set name.1.value value) built = .ok (ref, after)) :
    instruction ⟨number, name.1 :: rest, program⟩ = .ok (ref, ⟨number, [], after⟩) := by
  rw [instruction, atKind_of_eq name.2, Step.bind_of_ok (take_at _ hname),
    Step.bind_of_ok hassigned, edit_at hadded]

/-- A line is read as what it denotes. -/
theorem instruction_of_denotes {line : LineTree} {operation : Operation} {built : Program}
    {ref : InstructionRef} (hinterned : program.Interned)
    (h : line.Denotes program operation built)
    (hmarks : ∀ token ∈ line.tokens, token.kind ≠ .eof)
    (hadded : Edit.addInstruction operation built = .ok (ref, after)) :
    instruction ⟨number, line.tokens, program⟩ = .ok (ref, ⟨number, [], after⟩) := by
  -- a line is asked in vain for the words that are tested in front of its own
  cases h with
  | @setResult name tree operation inner value operands made built hproducer hinner hvalue =>
    simp only [LineTree.tokens, List.forall_mem_cons] at hmarks
    obtain ⟨hname, hrest⟩ := hmarks
    exact instruction_of_assigned hname
      (assigned_of_producer hinterned hproducer hrest hinner hvalue) hadded
  | @setValue name operand value type built hoperand =>
    simp only [LineTree.tokens, List.forall_mem_cons] at hmarks
    obtain ⟨hname, hrest⟩ := hmarks
    exact instruction_of_assigned hname (assigned_of_operand hoperand hrest) hadded
  | @ret keyword =>
    have hkeyword : keyword.1.kind ≠ .eof := keyword.kind_ne (by decide)
    show instruction ⟨number, [keyword.1], program⟩ = _
    rw [instruction, atKind_of_ne (keyword.kind_ne (by decide)), atWord_of_isWord keyword.2,
      Step.bind_of_ok (take_at _ hkeyword), Step.bind_of_ok (atEnd_apply _)]
    exact edit_at hadded
  | @retValue keyword operand value type built hoperand =>
    simp only [LineTree.tokens, List.forall_mem_cons] at hmarks
    obtain ⟨hkeyword, hrest⟩ := hmarks
    have hmore : operand.tokens.isEmpty = false := by simp [operand.tokens_ne_nil]
    show instruction ⟨number, keyword.1 :: operand.tokens, program⟩ = _
    rw [instruction, atKind_of_ne (keyword.kind_ne (by decide)), atWord_of_isWord keyword.2,
      Step.bind_of_ok (take_at _ hkeyword), Step.bind_of_ok (atEnd_apply _), hmore,
      if_neg Bool.false_ne_true, map_eq_pure_bind, bind_assoc,
      Step.bind_of_ok (value_of_denotes_last hoperand hrest)]
    exact edit_at hadded
  | @store keyword target operand pointer value pointerType type pointed built htarget hoperand =>
    simp only [LineTree.tokens, List.forall_mem_cons, List.forall_mem_append] at hmarks
    obtain ⟨hkeyword, hpointer, hvalue⟩ := hmarks
    show instruction ⟨number, keyword.1 :: (target.tokens ++ operand.tokens), program⟩ = _
    rw [instruction, atKind_of_ne (keyword.kind_ne (by decide)), atWord_of_ne keyword (by decide),
      atWord_of_isWord keyword.2, Step.bind_of_ok (take_at _ hkeyword),
      Step.bind_of_ok (value_of_denotes htarget hpointer),
      Step.bind_of_ok (value_of_denotes_last hoperand hvalue), edit_at hadded]
  | @jump keyword label =>
    simp only [LineTree.tokens, List.forall_mem_cons] at hmarks
    obtain ⟨hkeyword, hlabel, -⟩ := hmarks
    show instruction ⟨number, [keyword.1, label.1], program⟩ = _
    rw [instruction, atKind_of_ne (keyword.kind_ne (by decide)), atWord_of_ne keyword (by decide),
      atWord_of_ne keyword (by decide), atWord_of_isWord keyword.2,
      Step.bind_of_ok (take_at _ hkeyword), Step.bind_of_ok (target_at hlabel), edit_at hadded]
  | @branch keyword condition whenTrue whenFalse value type built hcondition =>
    simp only [LineTree.tokens, List.forall_mem_cons, List.forall_mem_append] at hmarks
    obtain ⟨hkeyword, hvalue, htrue, hfalse, -⟩ := hmarks
    show instruction
      ⟨number, keyword.1 :: (condition.tokens ++ [whenTrue.1, whenFalse.1]), program⟩ = _
    rw [instruction, atKind_of_ne (keyword.kind_ne (by decide)), atWord_of_ne keyword (by decide),
      atWord_of_ne keyword (by decide), atWord_of_ne keyword (by decide),
      atWord_of_isWord keyword.2, Step.bind_of_ok (take_at _ hkeyword),
      Step.bind_of_ok (value_of_denotes hcondition hvalue), Step.bind_of_ok (target_at htrue),
      Step.bind_of_ok (target_at hfalse), edit_at hadded]
  | @produce tree operation built hproducer =>
    show instruction ⟨number, tree.tokens, program⟩ = _
    rw [instruction_of_producer, producer_of_denotes hinterned hproducer hmarks hadded]

end Reads

/-- A line that denotes an instruction is accepted, and it is this instruction that is built. -/
theorem exists_of_denotes {program : Program} (hinterned : program.Interned) (number : Nat)
    {line : LineTree} (hmarks : ∀ token ∈ line.tokens, token.kind ≠ .eof) {operation : Operation}
    {operands : Program} (h : line.Denotes program operation operands) : ∃ ref after,
      instructionLine ⟨number, line.tokens, program⟩ = .ok (ref, ⟨number, [], after⟩) ∧
        Edit.addInstruction operation operands = .ok (ref, after) ∧
        after.instructions.get? ref = some { self := ref, operation } := by
  obtain ⟨ref, after, hadded, -, hentry⟩ := Edit.addInstruction_yields operands operation
  refine ⟨ref, after, ?_, hadded, hentry⟩
  rw [instructionLine, Step.bind_of_ok (instruction_of_denotes hinterned h hmarks hadded),
    Step.bind_of_ok (finish_of_nil rfl)]
  rfl

end LineReader

/-- **Lines of bodies are accepted for what they denote**: a line is accepted exactly if it has one
derivation that denotes an instruction in the program, and then it is this instruction that has been
built. -/
theorem Program.Reachable.instructionLine_iff {program : Program} (h : program.Reachable)
    (number : Nat) {tokens : List Token} (hmarks : ∀ token ∈ tokens, token.kind ≠ .eof) :
    ((∃ ref after, LineReader.instructionLine ⟨number, tokens, program⟩ = .ok (ref, after)) ↔
      ∃! line : LineTree, line.tokens = tokens ∧
        ∃ operation operands, line.Denotes program operation operands) ∧
    ∀ line : LineTree, line.tokens = tokens →
      ∀ operation operands, line.Denotes program operation operands →
        ∃ ref after, LineReader.instructionLine ⟨number, tokens, program⟩ =
            .ok (ref, ⟨number, [], after⟩) ∧
          Edit.addInstruction operation operands = .ok (ref, after) ∧
          after.instructions.get? ref = some { self := ref, operation } := by
  have hinterned := h.requested.interned
  refine ⟨⟨?_, ?_⟩, ?_⟩
  · rintro ⟨ref, after, hrun⟩
    obtain ⟨hend, line, operation, operands, htokens, hdenotes, -⟩ :=
      LineReader.instructionLine_denotes hinterned ref after hrun
    rw [hend, List.append_nil] at htokens
    refine ⟨line, ⟨htokens.symm, operation, operands, hdenotes⟩, ?_⟩
    -- no other tree has these tokens, whatever it denotes
    rintro other ⟨hother, -⟩
    exact LineTree.tokens_injective (hother.trans htokens)
  · rintro ⟨line, ⟨rfl, operation, operands, hdenotes⟩, -⟩
    obtain ⟨ref, after, hrun, -⟩ :=
      LineReader.exists_of_denotes hinterned number hmarks hdenotes
    exact ⟨ref, _, hrun⟩
  · rintro line rfl operation operands hdenotes
    exact LineReader.exists_of_denotes hinterned number hmarks hdenotes

/-- A register is set to the sum of a register and a constant: the line has a derivation, and the
sum is called in front of the setting. -/
theorem Program.instructionLine_iff_sum : ∃ tokens : List Token,
    tokens = [⟨.register, "r", 1⟩, ⟨.identifier, "call", 1⟩, ⟨.operator, "+", 1⟩,
      ⟨.register, "a", 1⟩, ⟨.identifier, "num", 1⟩, ⟨.identifier, "const", 1⟩,
      ⟨.identifier, "num", 1⟩, ⟨.number, "1", 1⟩] ∧
    (∀ token ∈ tokens, token.kind ≠ .eof) ∧
    ∃ line : LineTree, line.tokens = tokens ∧
      ∃ operation operands, line.Denotes initial operation operands ∧ ∃ ref after,
        Edit.addInstruction operation operands = .ok (ref, after) ∧
          (after.instructions.get? ⟨0⟩).map (·.operation) = some (.call ⟨0⟩ [⟨0⟩, ⟨1⟩]) ∧
          (after.instructions.get? ⟨1⟩).map (·.operation) = some (.set "r" ⟨2⟩) := by
  obtain ⟨tokens, htokens⟩ : ∃ tokens : List Token, tokens = [⟨.register, "r", 1⟩,
      ⟨.identifier, "call", 1⟩, ⟨.operator, "+", 1⟩, ⟨.register, "a", 1⟩, ⟨.identifier, "num", 1⟩,
      ⟨.identifier, "const", 1⟩, ⟨.identifier, "num", 1⟩, ⟨.number, "1", 1⟩] := ⟨_, rfl⟩
  have hmarks : ∀ token ∈ tokens, token.kind ≠ .eof := by
    rw [htokens]
    decide
  have hread : Step.leadsTo LineReader.instructionLine ⟨1, tokens, initial⟩
      (fun state => decide ((state.program.instructions.get? ⟨0⟩).map (·.operation) =
          some (.call ⟨0⟩ [⟨0⟩, ⟨1⟩]) ∧
        (state.program.instructions.get? ⟨1⟩).map (·.operation) = some (.set "r" ⟨2⟩))) =
      true := by
    rw [htokens]
    decide +kernel
  obtain ⟨ref, state, hrun, htest⟩ := Step.exists_of_leadsTo hread
  obtain ⟨hderives, hbuilds⟩ := Reachable.initial.instructionLine_iff 1 hmarks
  obtain ⟨line, ⟨hline, operation, operands, hdenotes⟩, -⟩ := hderives.1 ⟨ref, state, hrun⟩
  obtain ⟨ref', after, hrun', hadded, -⟩ := hbuilds line hline operation operands hdenotes
  obtain ⟨rfl, rfl⟩ := Prod.mk.inj (Except.ok.inj (hrun.symm.trans hrun'))
  obtain ⟨hcall, hset⟩ := of_decide_eq_true htest
  exact ⟨tokens, htokens, hmarks, line, hline, operation, operands, hdenotes, ref, after, hadded,
    hcall, hset⟩

end ChainIR
