import Mathlib
import ChainIR.Proofs.Reading.Builds

/-! # What reading along a line builds

If a line is read, its tokens are a phrase, and what has been built is what the phrase says: types
with the names that it gives, operands, and an instruction
(`LineReader.instructionLine_onSuccess`). The program has only grown by them and is still one that
reading leaves. -/

namespace ChainIR

/-! ## Tokens that are taken -/

namespace LineReader

open Program Step

variable {α β : Type} {state : LineState}

/-- What holds behind an edit holds behind it along a line, and the tokens stay. -/
theorem edit_onSuccess {step : Edit α} {post : α → Program → Prop}
    (h : OnSuccess step state.program post) :
    OnSuccess (edit step) state fun answer after =>
      after.tokens = state.tokens ∧ post answer after.program := by
  intro answer after hrun
  rw [edit] at hrun
  cases hstep : step.run state.program with
  | error fault =>
    rw [hstep] at hrun
    cases hrun
  | ok result =>
    rw [hstep] at hrun
    obtain ⟨rfl, rfl⟩ := Prod.mk.inj (Except.ok.inj hrun)
    exact ⟨rfl, h _ _ hstep⟩

/-- A question does not change anything. -/
theorem ask_onSuccess (query : Program → Except Fault α) :
    OnSuccess (ask query) state fun answer after =>
      after = state ∧ query state.program = .ok answer := by
  intro answer after hrun
  rw [ask, edit] at hrun
  cases hquery : query state.program with
  | error fault =>
    rw [show (Edit.ask query).run state.program = .error fault by
      rw [StateT.run, Edit.ask, hquery]; rfl] at hrun
    cases hrun
  | ok result =>
    rw [show (Edit.ask query).run state.program = .ok (result, state.program) from
      Edit.ask_of_ok hquery] at hrun
    obtain ⟨rfl, rfl⟩ := Prod.mk.inj (Except.ok.inj hrun)
    exact ⟨rfl, rfl⟩

/-- A rejection never succeeds. -/
theorem reject_onSuccess {error : ReadError} {post : α → LineState → Prop} :
    OnSuccess (reject error) state post := .of_error (reject_apply error state)

/-- What is not expected is rejected. -/
theorem unexpected_onSuccess {expected : String} {post : α → LineState → Prop} :
    OnSuccess (unexpected expected) state post := by
  refine .bind_of_ok (peek?_apply state) ?_
  split
  · exact reject_onSuccess
  · exact .get reject_onSuccess

/-- A token is taken off the front. -/
theorem take_onSuccess (expected : String) :
    OnSuccess (take expected) state fun token after =>
      state.tokens = token :: after.tokens ∧ after.program = state.program := by
  refine .get ?_
  split
  · exact unexpected_onSuccess
  next token rest htokens =>
  split
  · exact unexpected_onSuccess
  · exact .bind_of_ok (set_apply state _) (.pure ⟨htokens, rfl⟩)

/-- A token of a class is taken off the front. -/
theorem takeKind_onSuccess (kind : TokenKind) :
    OnSuccess (takeKind kind) state fun token after =>
      state.tokens = token :: after.tokens ∧ after.program = state.program := by
  refine .bind_of_ok (atKind_apply kind state) ?_
  split
  · exact take_onSuccess _
  · exact unexpected_onSuccess

/-- A keyword is taken off the front. -/
theorem takeWord_onSuccess (word : String) :
    OnSuccess (takeWord word) state fun token after =>
      state.tokens = token :: after.tokens ∧ after.program = state.program := by
  refine .bind_of_ok (atWord_apply word state) ?_
  split
  · exact take_onSuccess _
  · exact unexpected_onSuccess

/-- A line ends at its end. -/
theorem finish_onSuccess : OnSuccess finish state fun _ after =>
    after = state ∧ state.tokens = [] := by
  refine .bind_of_ok (atEnd_apply state) ?_
  cases htokens : state.tokens with
  | nil => exact .pure ⟨rfl, rfl⟩
  | cons token rest => exact unexpected_onSuccess

/-- A jump target is read off the front. -/
theorem target_onSuccess : OnSuccess target state fun name after =>
    Token.target? state.tokens = some (name, after.tokens) ∧ after.program = state.program := by
  refine .bind_of_ok (atKind_apply .block state) (.bind_of_ok (atKind_apply .identifier state)
    (.bind_of_ok (atKind_apply .number state) ?_))
  split
  · next hkind =>
    refine (take_onSuccess "label").bind fun token after hafter => .pure ?_
    obtain ⟨htokens, hprogram⟩ := hafter
    rw [htokens] at hkind ⊢
    refine ⟨if_pos ?_, hprogram⟩
    simpa [or_assoc] using hkind
  · exact unexpected_onSuccess

/-! ## Operands -/

section Operands

variable (h : state.program.Read)

include h

/-- A type is read off the front. -/
theorem type_onSuccess : OnSuccess type state fun ref after => ∃ token,
    state.tokens = token :: after.tokens ∧ state.program.Builds after.program 0 ∧
      after.program.typeName ref = .ok token.typeName := by
  refine (take_onSuccess "type").bind fun token taken htaken => ?_
  obtain ⟨htokens, hprogram⟩ := htaken
  rw [← hprogram] at h
  have hfound : OnSuccess (Edit.typeByName token.value) taken.program fun result after =>
      taken.program.Builds after 0 ∧ ∀ ref, result = .ok (some ref) →
        after.typeName ref = .ok token.typeName := by
    intro result after hrun
    obtain ⟨hadds, hinterned, hname⟩ :=
      (Edit.typeByName_yields h.requested.interned token.value).of_eq_ok hrun
    have hkeeps := Edit.read_of_typeByName h hrun
    exact ⟨⟨.of_addsTypes hadds hinterned, hkeeps.read, hkeeps.size⟩, hname⟩
  refine (edit_onSuccess hfound).bind fun result after hafter => ?_
  obtain ⟨hrest, hbuilds, hname⟩ := hafter
  split
  · exact .pure ⟨token, by rw [htokens, hrest], hprogram ▸ hbuilds, hname _ rfl⟩
  · exact reject_onSuccess
  · exact reject_onSuccess

/-- A constant is read off the front. -/
theorem constant_onSuccess : OnSuccess constant state fun constant after => ∃ keyword type text,
    state.tokens = keyword :: type :: text :: after.tokens ∧ state.program.Builds after.program 0 ∧
      Literal.ofText? type.typeName text.value = some constant.literal ∧
      after.program.typeName constant.type = .ok constant.literal.typeName := by
  refine (takeWord_onSuccess "const").bind fun keyword behind hbehind => ?_
  obtain ⟨htokens, hprogram⟩ := hbehind
  rw [← hprogram] at h
  refine (type_onSuccess h).bind fun ref typed htyped => ?_
  obtain ⟨type, htype, hbuilds, hname⟩ := htyped
  refine (take_onSuccess "literal").bind fun text taken htaken => ?_
  obtain ⟨htext, hsame⟩ := htaken
  refine (ask_onSuccess _).bind fun result after hafter => ?_
  obtain ⟨rfl, hread⟩ := hafter
  rw [constantOfText, hsame, hname] at hread
  obtain rfl : Constant.ofText ref type.typeName text.value = result := Except.ok.inj hread
  split
  · next constant hconstant =>
    obtain ⟨rfl, hliteral⟩ := Constant.type_of_ofText hconstant
    refine .pure ⟨keyword, type, text, by rw [htokens, htype, htext], ?_, ?_, ?_⟩
    · rw [hsame, ← hprogram]
      exact hbuilds
    · exact Constant.ofText?_of_ofText hconstant
    · rw [hsame, hname, hliteral]
  · exact reject_onSuccess

variable {layout : Outline InstructionRef} (hlaid : state.program.Laid layout)

omit h in
/-- An operand that stands for itself is created. -/
theorem addValue_onSuccess {program : Program} (h : program.Read) (value : Value)
    (hvalue : program.AdmitsValue value)
    (htyped : ∀ constant, value = .constant constant →
      program.typeName constant.type = .ok constant.literal.typeName)
    (hresult : ∀ instruction, value ≠ .result instruction) :
    OnSuccess (Edit.addValue value) program fun ref after =>
      program.Builds after 0 ∧ after.values.get? ref = some value := by
  intro ref after hrun
  obtain ⟨hread, -, hadded⟩ := Edit.read_of_addValue h hvalue htyped hresult hrun
  obtain ⟨hgrows, -⟩ := (Edit.addValue_yields program value).of_eq_ok hrun
  obtain ⟨-, rfl⟩ := Prod.mk.inj (Except.ok.inj hrun)
  exact ⟨⟨hgrows, hread, rfl⟩, hadded⟩

include hlaid

/-- The operand that stands first among tokens has been read off the front. -/
def ReadsOperand (layout : Outline InstructionRef) (state : LineState) (ref : ValueRef)
    (after : LineState) : Prop :=
  ∃ operand, Operand.ofTokens? layout.globals state.tokens = some (operand, after.tokens) ∧
    state.program.Builds after.program 0 ∧ after.program.OperandIs ref operand

omit hlaid in
/-- A register is read off the front, with its type behind it. -/
theorem register_onSuccess (hregister : state.tokens.head?.any (·.kind == .register)) :
    OnSuccess (do
      let token ← take "register"
      let ref ← type
      edit (Edit.addValue (.register token.value ref))) state (ReadsOperand layout state) := by
  refine (take_onSuccess "register").bind fun token taken htaken => ?_
  obtain ⟨htokens, hprogram⟩ := htaken
  rw [htokens, List.head?_cons, Option.any_some, beq_iff_eq] at hregister
  rw [← hprogram] at h
  refine (type_onSuccess h).bind fun type typed htyped => ?_
  obtain ⟨name, hname, hbuilds, htype⟩ := htyped
  refine (edit_onSuccess (addValue_onSuccess hbuilds.read (.register token.value type) trivial
    (by simp) (by simp))).mono fun ref after hafter => ?_
  obtain ⟨hrest, hadded, hvalue⟩ := hafter
  refine ⟨.register token.value name.typeName, ?_, hprogram ▸ hbuilds.trans hadded, type, hvalue,
    hadded.grows.toExtends.typeName htype⟩
  rw [htokens]
  simp [Operand.ofTokens?, hregister, hname, hrest]

/-- A global is read off the front. Its type is not written: it is that of its literal. -/
theorem global_onSuccess (hglobal : state.tokens.head?.any (·.kind == .global)) :
    OnSuccess (do
      let token ← take "global"
      match (← get).program.globalNamed? token.value with
      | none => reject (.unknownGlobal token)
      | some global =>
        let entry ← ask fun program => program.global global
        edit (Edit.addValue (.globalPointer token.value entry.initial.type))) state
      (ReadsOperand layout state) := by
  refine (take_onSuccess "global").bind fun token taken htaken => ?_
  obtain ⟨htokens, hprogram⟩ := htaken
  rw [htokens, List.head?_cons, Option.any_some, beq_iff_eq] at hglobal
  refine .get ?_
  split
  · exact reject_onSuccess
  next global hnamed =>
  refine (ask_onSuccess _).bind fun entry asked hasked => ?_
  obtain ⟨rfl, hentry⟩ := hasked
  rw [← hprogram] at h hlaid
  -- the table and the list of globals agree on what the name is bound to
  obtain ⟨binding, hbinding, his⟩ := hlaid.globals global entry (found_eq_ok.1 hentry)
  obtain ⟨literal, hliteral⟩ := (hlaid.globalNames token.value global).1 hnamed
  obtain rfl := Option.some.inj (hliteral.symm.trans hbinding)
  have hadmits : asked.program.AdmitsValue (.globalPointer token.value entry.initial.type) :=
    ⟨global, entry, hnamed, found_eq_ok.1 hentry, rfl⟩
  refine (edit_onSuccess (addValue_onSuccess h _ hadmits (by simp)
    (by simp))).mono fun ref after hafter => ?_
  obtain ⟨hrest, hadded, hvalue⟩ := hafter
  have hextends := hadded.grows.toExtends
  obtain ⟨entry', hentry', hname, hinitial⟩ :=
    hextends.globals global entry (found_eq_ok.1 hentry)
  refine ⟨.global token.value literal.typeName, ?_, hprogram ▸ hadded, global, entry', hentry',
    hname.trans his.name, ?_, .inl ?_⟩
  · rw [htokens]
    simp [Operand.ofTokens?, hglobal, hlaid.lookup_globals hnamed hliteral, hrest]
  · rw [hinitial]
    exact hextends.typeName his.type
  · rw [hinitial]
    exact hvalue

omit hlaid in
/-- A constant operand is read off the front. -/
theorem literal_onSuccess (hregister : ¬ state.tokens.head?.any (·.kind == .register))
    (hglobal : ¬ state.tokens.head?.any (·.kind == .global))
    (hword : state.tokens.head?.any (·.isWord "const")) :
    OnSuccess (do
      let constant ← constant
      edit (Edit.addValue (.constant constant))) state (ReadsOperand layout state) := by
  refine (constant_onSuccess h).bind fun constant read hread => ?_
  obtain ⟨keyword, type, text, htokens, hbuilds, hliteral, htype⟩ := hread
  simp only [htokens, List.head?_cons, Option.any_some, beq_iff_eq] at hregister hglobal hword
  refine (edit_onSuccess (addValue_onSuccess hbuilds.read (.constant constant) trivial ?_
    (by simp))).mono fun ref after hafter => ?_
  · intro other hequal
    obtain rfl := Value.constant.inj hequal
    exact htype
  obtain ⟨hrest, hadded, hvalue⟩ := hafter
  refine ⟨.constant constant.literal, ?_, hbuilds.trans hadded, constant.type, hvalue,
    hadded.grows.toExtends.typeName htype⟩
  rw [htokens]
  simp [Operand.ofTokens?, hregister, hglobal, hword, hliteral, hrest]

/-- A value is read off the front. -/
theorem value_onSuccess : OnSuccess value state (ReadsOperand layout state) := by
  refine .bind_of_ok (atKind_apply .register state) ?_
  split
  · next hregister => exact register_onSuccess h hregister
  next hregister =>
  refine .bind_of_ok (atKind_apply .global state) ?_
  split
  · next hglobal => exact global_onSuccess h hlaid hglobal
  next hglobal =>
  refine .bind_of_ok (atWord_apply "const" state) ?_
  split
  · next hword => exact literal_onSuccess h hregister hglobal hword
  · exact unexpected_onSuccess

/-- Values are read up to the end of the line. -/
theorem valuesWithin_onSuccess {count : Nat} (hcount : state.tokens.length ≤ count) :
    OnSuccess (valuesWithin count) state fun refs after => ∃ operands,
      Operand.listOfTokens? layout.globals state.tokens = some operands ∧ after.tokens = [] ∧
        state.program.Builds after.program 0 ∧
        List.Forall₂ after.program.OperandIs refs operands := by
  induction count generalizing state with
  | zero =>
    have htokens : state.tokens = [] := List.length_eq_zero_iff.1 (Nat.le_zero.1 hcount)
    exact .pure ⟨[], by rw [htokens]; rfl, htokens, .of_eq h rfl, .nil⟩
  | succ count ih =>
    refine .bind_of_ok (atEnd_apply state) ?_
    split
    · next hend =>
      have htokens : state.tokens = [] := List.isEmpty_iff.1 hend
      exact .pure ⟨[], by rw [htokens]; rfl, htokens, .of_eq h rfl, .nil⟩
    refine (value_onSuccess h hlaid).bind fun ref between hbetween => ?_
    obtain ⟨operand, hfirst, hbuilds, his⟩ := hbetween
    have hlt := Operand.length_lt_of_ofTokens? hfirst
    refine (ih hbuilds.read (hbuilds.laid hlaid) (by omega)).bind fun refs after hafter => ?_
    obtain ⟨operands, hrest, hend, hbuilds', hall⟩ := hafter
    exact .pure ⟨operand :: operands, Operand.listOfTokens?_of_first hfirst hrest, hend,
      hbuilds.trans hbuilds', .cons (his.mono hbuilds'.grows.toExtends) hall⟩

/-! ## Instructions with results -/

omit hlaid in
/-- An instruction is created. -/
theorem addInstruction_onSuccess (operation : Operation)
    (hoperation : state.program.AdmitsOperation operation) :
    OnSuccess (edit (Edit.addInstruction operation)) state fun ref after =>
      after.tokens = state.tokens ∧ state.program.Builds after.program 1 ∧
        ref = state.program.instructions.nextRef ∧ after.program.IsNew ref operation := by
  have hadded : OnSuccess (Edit.addInstruction operation) state.program fun ref after =>
      state.program.Builds after 1 ∧ ref = state.program.instructions.nextRef ∧
        after.IsNew ref operation := by
    intro ref after hrun
    obtain ⟨hread, -, hentry, hunused⟩ := Edit.read_of_addInstruction h hoperation hrun
    obtain ⟨hgrows, -⟩ := (Edit.addInstruction_yields state.program operation).of_eq_ok hrun
    obtain ⟨rfl, rfl⟩ := Prod.mk.inj (Except.ok.inj hrun)
    exact ⟨⟨hgrows, hread, Arena.size_alloc _ _⟩, rfl, hentry, hunused⟩
  exact edit_onSuccess hadded

/-- A call is created if it has a callee. -/
theorem callOf_onSuccess (name : String) {refs : List ValueRef} {operands : List Operand}
    (hoperands : List.Forall₂ state.program.OperandIs refs operands) :
    OnSuccess (callOf name refs) state fun ref after => after.tokens = state.tokens ∧
      state.program.Builds after.program 1 ∧ ref = state.program.instructions.nextRef ∧
        after.program.Produces layout.prototypes ref (.call name operands) := by
  obtain ⟨types, htypes, hnames⟩ := hasOperands h.toAsRead hoperands
  have hresolved := hlaid.resolve?_eq name hnames
  refine .bind_of_ok (mapM_valueType (htypes.imp fun _ _ his => his.valueType_eq)) ?_
  rw [mapM_id_map_some]
  refine .bind_of_ok (ask_of_ok hresolved) ?_
  cases hcallee : resolveIn layout.prototypes name (operands.map Operand.type) with
  | none =>
    -- the types are named for the message, and then the line is rejected
    have hanything : OnSuccess (typeNames (types.map some)) state fun _ _ => True :=
      fun _ _ _ => trivial
    exact hanything.bind fun _ _ _ => .get reject_onSuccess
  | some function =>
    -- functions keep their names, so the callee is still called so behind the new instruction
    have htakes := takes_of_resolve? (hresolved.trans (congrArg Except.ok hcallee))
    refine (addInstruction_onSuccess h (.call function refs) ⟨types, htypes, htakes⟩).mono
      fun ref after hafter => ?_
    obtain ⟨htokens, hbuilds, href, hnew⟩ := hafter
    have hextends := hbuilds.grows.toExtends
    obtain ⟨prototype, hprototype, hsame⟩ := exists_of_resolveIn hcallee
    obtain ⟨entry, hentry, hname, -⟩ := hlaid.function_of_prototype hprototype
    obtain ⟨entry', hentry', hname', -⟩ := hextends.functions _ _ hentry
    refine ⟨htokens, hbuilds, href, .call function refs, .call ⟨name, function⟩ operands, hnew, rfl,
      by rw [Producer.resolve, hcallee]; rfl, refs, rfl, ⟨entry', hentry', ?_⟩,
      hoperands.imp fun _ _ his => his.mono hextends⟩
    rw [hname', hname, hsame]

/-- The instruction with a result that stands first among tokens has been read off the front. -/
def ReadsProducer (layout : Outline InstructionRef) (state : LineState) (ref : InstructionRef)
    (after : LineState) : Prop :=
  ∃ written, Producer.ofTokens? layout.globals state.tokens = some (written, after.tokens) ∧
    state.program.Builds after.program 1 ∧ ref = state.program.instructions.nextRef ∧
    after.program.Produces layout.prototypes ref written

/-- A call is read off the front. -/
theorem call_onSuccess (hcall : state.tokens.head?.any (·.isWord "call")) :
    OnSuccess call state (ReadsProducer layout state) := by
  refine (take_onSuccess _).bind fun keyword behind hbehind => ?_
  obtain ⟨hkeyword, hprogram⟩ := hbehind
  rw [hkeyword, List.head?_cons, Option.any_some] at hcall
  refine (take_onSuccess _).bind fun callee named hnamed => ?_
  obtain ⟨hcallee, hprogram'⟩ := hnamed
  rw [← hprogram, ← hprogram'] at h hlaid
  refine OnSuccess.bind (.get (valuesWithin_onSuccess h hlaid le_rfl)) fun refs read hread => ?_
  obtain ⟨operands, hoperands, hend, hbuilds, hall⟩ := hread
  refine (callOf_onSuccess hbuilds.read (hbuilds.laid hlaid) callee.value hall).mono
    fun ref after hafter => ?_
  obtain ⟨htokens, hbuilds', href, hproduces⟩ := hafter
  rw [ReadsProducer, ← hprogram, ← hprogram']
  refine ⟨.call callee.value operands, ?_, hbuilds.trans hbuilds', ?_, hproduces⟩
  · rw [hkeyword]
    simp [Producer.ofTokens?, hcall, hcallee, hoperands, htokens, hend]
  · rw [href, hbuilds.nextRef_eq]

section Keywords

variable (hcall : ¬ state.tokens.head?.any (·.isWord "call"))

include hcall

omit hlaid in
/-- An allocation is read off the front. -/
theorem alloc_onSuccess (halloc : state.tokens.head?.any (·.isWord "alloc")) :
    OnSuccess (do
      let _ ← take "`alloc`"
      edit (Edit.addInstruction (.alloc (← type)))) state (ReadsProducer layout state) := by
  refine (take_onSuccess _).bind fun keyword behind hbehind => ?_
  obtain ⟨hkeyword, hprogram⟩ := hbehind
  simp only [hkeyword, List.head?_cons, Option.any_some] at hcall halloc
  rw [← hprogram] at h
  refine (type_onSuccess h).bind fun type typed htyped => ?_
  obtain ⟨name, hname, hbuilds, htype⟩ := htyped
  refine (addInstruction_onSuccess hbuilds.read (.alloc type) ?_).mono fun ref after hafter => ?_
  · exact fun value hmem => absurd hmem List.not_mem_nil
  obtain ⟨htokens, hbuilds', href, hnew⟩ := hafter
  rw [ReadsProducer, ← hprogram]
  refine ⟨.alloc name.typeName, ?_, hbuilds.trans hbuilds', ?_, .alloc type,
    .alloc name.typeName, hnew, rfl, rfl, type, rfl, hbuilds'.grows.toExtends.typeName htype⟩
  · rw [hkeyword]
    simp [Producer.ofTokens?, hcall, halloc, hname, htokens]
  · rw [href, hbuilds.nextRef_eq]

/-- A load is read off the front. -/
theorem load_onSuccess (halloc : ¬ state.tokens.head?.any (·.isWord "alloc"))
    (hload : state.tokens.head?.any (·.isWord "load")) :
    OnSuccess (do
      let _ ← take "`load`"
      edit (Edit.addInstruction (.load (← value)))) state (ReadsProducer layout state) := by
  refine (take_onSuccess _).bind fun keyword behind hbehind => ?_
  obtain ⟨hkeyword, hprogram⟩ := hbehind
  simp only [hkeyword, List.head?_cons, Option.any_some] at hcall halloc hload
  rw [← hprogram] at h hlaid
  refine (value_onSuccess h hlaid).bind fun pointer read hread => ?_
  obtain ⟨operand, hoperand, hbuilds, his⟩ := hread
  obtain ⟨type, htype, -⟩ := his.hasOperand hbuilds.read.toAsRead
  refine (addInstruction_onSuccess hbuilds.read (.load pointer) ?_).mono fun ref after hafter => ?_
  · intro value hmem
    obtain rfl := List.mem_singleton.1 hmem
    exact ⟨type, htype⟩
  obtain ⟨htokens, hbuilds', href, hnew⟩ := hafter
  rw [ReadsProducer, ← hprogram]
  refine ⟨.load operand, ?_, hbuilds.trans hbuilds', ?_, .load pointer, .load operand, hnew, rfl,
    rfl, pointer, rfl, his.mono hbuilds'.grows.toExtends⟩
  · rw [hkeyword]
    simp [Producer.ofTokens?, hcall, halloc, hload, hoperand, htokens]
  · rw [href, hbuilds.nextRef_eq]

end Keywords

/-- An instruction with a result is read off the front. -/
theorem producer_onSuccess : OnSuccess producer state (ReadsProducer layout state) := by
  refine .bind_of_ok (atWord_apply "call" state) ?_
  split
  · next hcall => exact call_onSuccess h hlaid hcall
  next hcall =>
  refine .bind_of_ok (atWord_apply "alloc" state) ?_
  split
  · next halloc => exact alloc_onSuccess h hcall halloc
  next halloc =>
  refine .bind_of_ok (atWord_apply "load" state) ?_
  split
  · next hload => exact load_onSuccess h hlaid hcall halloc hload
  · exact unexpected_onSuccess

/-- What a register is set to is read off the front: a new instruction with a result, or an
operand. -/
theorem assigned_onSuccess : OnSuccess assigned state fun value after =>
    (∃ written inner entry producer,
      Producer.ofTokens? layout.globals state.tokens = some (written, after.tokens) ∧
        state.program.Builds after.program 1 ∧ inner = state.program.instructions.nextRef ∧
        after.program.values.get? value = some (.result inner) ∧
        after.program.instructions.get? inner = some entry ∧
        written.resolve layout.prototypes = some producer ∧
        after.program.ProducerIs entry.operation producer) ∨
    ∃ operand, Producer.ofTokens? layout.globals state.tokens = none ∧
      Operand.ofTokens? layout.globals state.tokens = some (operand, after.tokens) ∧
        state.program.Builds after.program 0 ∧ after.program.OperandIs value operand := by
  rw [assigned, atProducer]
  simp only [bind_assoc, pure_bind]
  refine .bind_of_ok (atWord_apply "call" state) (.bind_of_ok (atWord_apply "alloc" state)
    (.bind_of_ok (atWord_apply "load" state) ?_))
  split
  · refine (producer_onSuccess h hlaid).bind fun inner produced hproduced => ?_
    obtain ⟨written, htokens, hbuilds, hinner, operation, producer, hnew, hproducer, hmeant, his⟩ :=
      hproduced
    -- nobody has asked for the result of the new instruction, so a value is created for it
    have hresult : OnSuccess (Edit.resultValue inner) produced.program fun value after =>
        produced.program.Builds after 0 ∧ after.values.get? value = some (.result inner) := by
      intro value after hrun
      obtain ⟨hread, -, hvalue⟩ :=
        Edit.read_of_resultValue hbuilds.read hnew.entry rfl hproducer rfl hrun
      obtain ⟨hgrows, -⟩ := (Edit.resultValue_yields hnew.entry).of_eq_ok hrun
      refine ⟨⟨hgrows, hread, ?_⟩, hvalue⟩
      obtain ⟨known, -, ⟨-, rfl⟩ | ⟨-, -, rfl⟩⟩ := Edit.resultValue_cases hrun
      · rfl
      · exact Arena.size_modify _ _ _
    refine (edit_onSuccess hresult).mono fun value after hafter => .inl ?_
    obtain ⟨hrest, hbuilds', hvalue⟩ := hafter
    obtain ⟨result, hentry⟩ := hbuilds'.grows.instructions inner _ hnew.entry
    exact ⟨written, inner, _, producer, by rw [htokens, hrest], hbuilds.trans hbuilds', hinner,
      hvalue, hentry, hmeant, his.mono hbuilds'.grows.toExtends⟩
  · next hother =>
    refine (value_onSuccess h hlaid).mono fun value after hafter => .inr ?_
    obtain ⟨operand, htokens, hbuilds, his⟩ := hafter
    refine ⟨operand, ?_, htokens, hbuilds, his⟩
    cases htokens' : state.tokens with
    | nil => rfl
    | cons first rest =>
      rw [htokens'] at hother
      simp only [List.head?_cons, Option.any_some, Bool.or_eq_true, not_or] at hother
      simp [Producer.ofTokens?, hother]

end Operands

/-! ## Statements -/

section Instructions

variable {layout : Outline InstructionRef}

/-- The instruction that stands first among tokens has been read off the front. -/
def ReadsStatement (layout : Outline InstructionRef) (state : LineState) (ref : InstructionRef)
    (after : LineState) : Prop :=
  ∃ written, Statement.ofTokens? layout.globals state.tokens = some (written, after.tokens) ∧
    state.program.Says after.program layout.prototypes ref written

/-- The instruction of a statement is created, behind the one under it. -/
theorem addStatement_onSuccess {before : LineState} {count : Nat}
    (hbuilds : state.program.Builds before.program count) {operation : Operation}
    (statement : Statement Callee) (his : before.program.OperationIs operation statement)
    (hplain : ∀ producer, statement ≠ .produce producer) (written : Statement String)
    (hphrase : Statement.ofTokens? layout.globals state.tokens = some (written, before.tokens))
    (hmeant : written.resolve layout.prototypes = some statement)
    (hrefs : before.program.instructions.refs =
      state.program.instructions.refs ++ (before.program.innerOf? operation).toList) :
    OnSuccess (edit (Edit.addInstruction operation)) before (ReadsStatement layout state) := by
  have hadmits := his.admits hbuilds.read.toAsRead hplain
  refine (addInstruction_onSuccess hbuilds.read operation hadmits).mono fun ref after hafter => ?_
  obtain ⟨htokens, hadded, href, hnew⟩ := hafter
  have hextends := hadded.grows.toExtends
  refine ⟨written, by rw [hphrase, htokens], hbuilds.grows.trans hadded.grows, hadded.read, ?_,
    ⟨statement, hmeant, _, hnew.entry, his.mono hextends⟩, operation, hnew⟩
  rw [Arena.refs_succ hadded.size, hrefs, unfolded, inner?, hnew.entry, Option.bind_some,
    hextends.innerOf?_eq hadmits, List.append_assoc, href]

/-- The instruction of a statement with nothing under it is created. -/
theorem addPlain_onSuccess {before : LineState} (hbuilds : state.program.Builds before.program 0)
    {operation : Operation} (statement : Statement Callee)
    (his : before.program.OperationIs operation statement)
    (hplain : ∀ producer, statement ≠ .produce producer)
    (hflat : ∀ name producer, statement ≠ .assign name producer)
    (hphrase : Statement.ofTokens? layout.globals state.tokens =
      some (statement.written, before.tokens))
    (hmeant : statement.written.resolve layout.prototypes = some statement) :
    OnSuccess (edit (Edit.addInstruction operation)) before (ReadsStatement layout state) := by
  refine addStatement_onSuccess hbuilds statement his hplain _ hphrase hmeant ?_
  rw [his.innerOf?_eq_none hflat, Option.toList_none, List.append_nil,
    Arena.refs_congr hbuilds.size]

/-- An instruction with a result is a statement by itself. -/
theorem readsStatement_of_produces {after : LineState} {ref : InstructionRef}
    {written : Producer String}
    (hphrase : Statement.ofTokens? layout.globals state.tokens =
      some (.produce written, after.tokens))
    (hbuilds : state.program.Builds after.program 1)
    (href : ref = state.program.instructions.nextRef)
    (hproduces : after.program.Produces layout.prototypes ref written) :
    ReadsStatement layout state ref after := by
  obtain ⟨operation, producer, hnew, -, hmeant, his⟩ := hproduces
  have his' : after.program.OperationIs operation (.produce producer) := his
  refine ⟨.produce written, hphrase, hbuilds.grows, hbuilds.read, ?_,
    ⟨.produce producer, by rw [Statement.resolve, hmeant]; rfl, _, hnew.entry, his'⟩, operation, hnew⟩
  rw [Arena.refs_succ hbuilds.size, unfolded, inner?, hnew.entry, Option.bind_some,
    his'.innerOf?_eq_none (by simp), href]
  rfl

variable (h : state.program.Read) (hlaid : state.program.Laid layout)

include h hlaid

/-- The first token is taken. -/
theorem takeFirst_onSuccess (expected : String) : OnSuccess (take expected) state
    fun first behind => state.tokens = first :: behind.tokens ∧
      behind.program = state.program ∧ behind.program.Read ∧ behind.program.Laid layout := by
  refine (take_onSuccess expected).mono fun first behind hbehind => ?_
  obtain ⟨htokens, hprogram⟩ := hbehind
  refine ⟨htokens, hprogram, ?_, ?_⟩ <;> rw [hprogram]
  · exact h
  · exact hlaid

/-- A register is set. -/
theorem setting_onSuccess (hregister : state.tokens.head?.any (·.kind == .register)) :
    OnSuccess (do
      let name := (← take "register").value
      edit (Edit.addInstruction (.set name (← assigned)))) state (ReadsStatement layout state) := by
  refine (takeFirst_onSuccess h hlaid _).bind fun name named hnamed => ?_
  obtain ⟨htokens, hprogram, hread, hlaid'⟩ := hnamed
  rw [htokens, List.head?_cons, Option.any_some, beq_iff_eq] at hregister
  refine (assigned_onSuccess hread hlaid').bind fun value read hvalue => ?_
  rw [hprogram] at hvalue
  -- the instruction under the setting, if there is one, has been created just before it
  rcases hvalue with ⟨written, inner, entry, producer, hproducer, hbuilds, hinner, hvalue, hentry,
    hmeant, his⟩ | ⟨operand, hnone, hoperand, hbuilds, his⟩
  · refine addStatement_onSuccess hbuilds (.assign name.value producer)
      ⟨value, inner, entry, rfl, hvalue, hentry, his⟩ (by simp) (.assign name.value written) ?_ ?_ ?_
    · rw [htokens]
      simp [Statement.ofTokens?, hregister, hproducer]
    · rw [Statement.resolve, hmeant]
      rfl
    · rw [Arena.refs_succ hbuilds.size, innerOf?, hvalue, hinner]
      rfl
  · refine addPlain_onSuccess hbuilds (.set name.value operand) ⟨value, rfl, his⟩
      (by simp) (by simp) ?_ rfl
    rw [htokens]
    simp [Statement.ofTokens?, hregister, hnone, hoperand, Statement.written, Statement.map]

section Keywords

variable (hregister : ¬ state.tokens.head?.any (·.kind == .register))

include hregister

/-- The function is left. -/
theorem ret_onSuccess (hret : state.tokens.head?.any (·.isWord "ret")) :
    OnSuccess (do
      let _ ← take "`ret`"
      let operand ← if ← atEnd then pure none else some <$> value
      edit (Edit.addInstruction (.ret operand))) state (ReadsStatement layout state) := by
  refine (takeFirst_onSuccess h hlaid _).bind fun keyword behind hbehind => ?_
  obtain ⟨htokens, hprogram, hread, hlaid'⟩ := hbehind
  simp only [htokens, List.head?_cons, Option.any_some, beq_iff_eq] at hregister hret
  refine .bind_of_ok (atEnd_apply behind) ?_
  split
  · next hend =>
    have hnil : behind.tokens = [] := List.isEmpty_iff.1 hend
    refine addPlain_onSuccess (.of_eq h hprogram) (.ret none) rfl (by simp) (by simp) ?_ rfl
    rw [htokens]
    simp [Statement.ofTokens?, hregister, hret, hnil, Statement.written, Statement.map]
  · next hend =>
    have hmore : behind.tokens ≠ [] := fun hnil => hend (List.isEmpty_iff.2 hnil)
    refine (OnSuccess.of_map (value_onSuccess hread hlaid')).bind fun value? read hvalue => ?_
    obtain ⟨value, rfl, operand, hoperand, hbuilds, his⟩ := hvalue
    rw [hprogram] at hbuilds
    refine addPlain_onSuccess hbuilds (.ret (some operand)) ⟨value, rfl, his⟩
      (by simp) (by simp) ?_ rfl
    rw [htokens]
    simp [Statement.ofTokens?, hregister, hret, hmore, hoperand, Statement.written, Statement.map]

variable (hret : ¬ state.tokens.head?.any (·.isWord "ret"))

include hret

/-- A value is stored. -/
theorem store_onSuccess (hstore : state.tokens.head?.any (·.isWord "store")) :
    OnSuccess (do
      let _ ← take "`store`"
      let pointer ← value
      edit (Edit.addInstruction (.store pointer (← value)))) state
      (ReadsStatement layout state) := by
  refine (takeFirst_onSuccess h hlaid _).bind fun keyword behind hbehind => ?_
  obtain ⟨htokens, hprogram, hread, hlaid'⟩ := hbehind
  simp only [htokens, List.head?_cons, Option.any_some, beq_iff_eq] at hregister hret hstore
  refine (value_onSuccess hread hlaid').bind fun pointer pointed hpointed => ?_
  obtain ⟨target, htarget, hbuilds, hpointer⟩ := hpointed
  refine (value_onSuccess hbuilds.read (hbuilds.laid hlaid')).bind fun value valued hvalued => ?_
  obtain ⟨operand, hoperand, hbuilds', hvalue⟩ := hvalued
  have hbuilt := hbuilds.trans hbuilds'
  rw [hprogram] at hbuilt
  refine addPlain_onSuccess hbuilt (.store target operand)
    ⟨pointer, value, rfl, hpointer.mono hbuilds'.grows.toExtends, hvalue⟩ (by simp) (by simp) ?_ rfl
  rw [htokens]
  simp [Statement.ofTokens?, hregister, hret, hstore, htarget, hoperand, Statement.written,
    Statement.map]

variable (hstore : ¬ state.tokens.head?.any (·.isWord "store"))

include hstore

/-- Another label is gone on at. -/
theorem jump_onSuccess (hjump : state.tokens.head?.any (·.isWord "jmp")) :
    OnSuccess (do
      let _ ← take "`jmp`"
      edit (Edit.addInstruction (.jump (← target)))) state (ReadsStatement layout state) := by
  refine (takeFirst_onSuccess h hlaid _).bind fun keyword behind hbehind => ?_
  obtain ⟨htokens, hprogram, -⟩ := hbehind
  simp only [htokens, List.head?_cons, Option.any_some, beq_iff_eq] at hregister hret hstore hjump
  refine target_onSuccess.bind fun name after hafter => ?_
  obtain ⟨htarget, hsame⟩ := hafter
  refine addPlain_onSuccess (.of_eq h (hsame.trans hprogram)) (.jump name) rfl
    (by simp) (by simp) ?_ rfl
  rw [htokens]
  simp [Statement.ofTokens?, hregister, hret, hstore, hjump, htarget, Statement.written,
    Statement.map]

variable (hjump : ¬ state.tokens.head?.any (·.isWord "jmp"))

include hjump

/-- One of two labels is gone on at. -/
theorem branch_onSuccess (hbranch : state.tokens.head?.any (·.isWord "cjmp")) :
    OnSuccess (do
      let _ ← take "`cjmp`"
      let condition ← value
      let whenTrue ← target
      edit (Edit.addInstruction (.branch condition whenTrue (← target)))) state
      (ReadsStatement layout state) := by
  refine (takeFirst_onSuccess h hlaid _).bind fun keyword behind hbehind => ?_
  obtain ⟨htokens, hprogram, hread, hlaid'⟩ := hbehind
  simp only [htokens, List.head?_cons, Option.any_some, beq_iff_eq]
    at hregister hret hstore hjump hbranch
  refine (value_onSuccess hread hlaid').bind fun value valued hvalued => ?_
  obtain ⟨condition, hcondition, hbuilds, his⟩ := hvalued
  refine target_onSuccess.bind fun whenTrue first hfirst => ?_
  obtain ⟨htrue, hsame⟩ := hfirst
  refine target_onSuccess.bind fun whenFalse after hafter => ?_
  obtain ⟨hfalse, hsame'⟩ := hafter
  rw [hprogram, ← hsame, ← hsame'] at hbuilds
  refine addPlain_onSuccess hbuilds (.branch condition whenTrue whenFalse)
    ⟨value, rfl, by rw [hsame', hsame]; exact his⟩ (by simp) (by simp) ?_ rfl
  rw [htokens]
  simp [Statement.ofTokens?, hregister, hret, hstore, hjump, hbranch, hcondition, htrue, hfalse,
    Statement.written, Statement.map]

/-- Any other instruction has a result. -/
theorem produce_onSuccess (hbranch : ¬ state.tokens.head?.any (·.isWord "cjmp")) :
    OnSuccess producer state (ReadsStatement layout state) := by
  refine (producer_onSuccess h hlaid).mono fun ref after hafter => ?_
  obtain ⟨written, hproducer, hbuilds, href, hproduces⟩ := hafter
  refine readsStatement_of_produces ?_ hbuilds href hproduces
  cases htokens : state.tokens with
  | nil =>
    rw [htokens] at hproducer
    cases hproducer
  | cons first rest =>
    rw [htokens] at hproducer
    simp only [htokens, List.head?_cons, Option.any_some, beq_iff_eq]
      at hregister hret hstore hjump hbranch
    simp [Statement.ofTokens?, hregister, hret, hstore, hjump, hbranch, hproducer]

end Keywords

/-- An instruction is read off the front. -/
theorem instruction_onSuccess : OnSuccess instruction state (ReadsStatement layout state) := by
  refine .bind_of_ok (atKind_apply .register state) ?_
  split
  · next hregister => exact setting_onSuccess h hlaid hregister
  next hregister =>
  refine .bind_of_ok (atWord_apply "ret" state) ?_
  split
  · next hret => exact ret_onSuccess h hlaid hregister hret
  next hret =>
  refine .bind_of_ok (atWord_apply "store" state) ?_
  split
  · next hstore => exact store_onSuccess h hlaid hregister hret hstore
  next hstore =>
  refine .bind_of_ok (atWord_apply "jmp" state) ?_
  split
  · next hjump => exact jump_onSuccess h hlaid hregister hret hstore hjump
  next hjump =>
  refine .bind_of_ok (atWord_apply "cjmp" state) ?_
  split
  · next hbranch => exact branch_onSuccess h hlaid hregister hret hstore hjump hbranch
  · next hbranch => exact produce_onSuccess h hlaid hregister hret hstore hjump hbranch

/-- A whole line is read that holds an instruction. -/
theorem instructionLine_onSuccess : OnSuccess instructionLine state fun ref after =>
    ∃ written, Statement.ofLine? layout.globals state.tokens = some written ∧
      state.program.Says after.program layout.prototypes ref written := by
  refine (instruction_onSuccess h hlaid).bind fun ref read hread => ?_
  obtain ⟨written, hphrase, hmeans⟩ := hread
  refine finish_onSuccess.bind fun _ after hafter => ?_
  obtain ⟨rfl, hend⟩ := hafter
  refine .pure ⟨written, ?_, hmeans⟩
  rw [Statement.ofLine?, hphrase, hend]

end Instructions

end LineReader

end ChainIR
