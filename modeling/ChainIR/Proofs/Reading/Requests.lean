import Mathlib
import ChainIR.Proofs.Bodies

/-! # What reading a line asks for

A line is read by asking for types, operands, instructions, functions and globals, so whatever it
makes of a program, requests can make of it too (`LineReader.sourceLine_becomes`). Only constants
need a reason: reading creates them with a type that it has found by its name, and that is the type
that a request for the literal gives them.

Values and instructions are created only by lines that hold an instruction. All other requests of a
line, those of headers, globals and labels, spare the operands (`Request.SparesOperands`), so what
such requests keep, and what the instruction of a line keeps, every line keeps
(`LineReader.sourceLine_keeps`).

* `Program.BecomesBy`: requests of some kind lead from one program to another.
* `LineReader.Asks`: a step along a line changes the program by requests of some kind alone.
* `Program.Leads`: requests and lines follow in any order, from whatever program. -/

namespace ChainIR

/-! ## Runs of requests -/

/-- The request creates neither values nor instructions. -/
def Request.SparesOperands : Request → Prop
  | .addRegister .. | .addGlobalPointer .. | .addConstant .. | .getResult .. | .getGlobal ..
  | .addInstruction .. | .appendNew .. => False
  | _ => True

namespace Program

/-- Requests that are all allowed lead from one program to another. -/
def BecomesBy (allowed : Request → Prop) (program after : Program) : Prop :=
  ∃ requests, (∀ request ∈ requests, allowed request) ∧
    Request.runAll requests program = .ok ((), after)

/-- Requests of any kind lead from one program to another. -/
abbrev Becomes (program after : Program) : Prop := program.BecomesBy (fun _ => True) after

/-- What a run of requests leads to. -/
theorem becomes_of_runAll {requests : List Request} {program after : Program}
    (hrun : Request.runAll requests program = .ok ((), after)) : program.Becomes after :=
  ⟨requests, fun _ _ => trivial, hrun⟩

namespace BecomesBy

variable {allowed allowed' : Request → Prop} {program after further : Program}

/-- Without a request nothing changes. -/
@[refl] theorem refl (program : Program) : program.BecomesBy allowed program := ⟨[], by simp, rfl⟩

/-- One request. -/
theorem of_run (request : Request) (hallowed : allowed request)
    (hrun : request.run program = .ok ((), after)) : program.BecomesBy allowed after := by
  refine ⟨[request], by simpa using hallowed, ?_⟩
  rw [Request.runAll, List.forM_cons, Step.bind_of_ok hrun]
  rfl

/-- Requests behind others. -/
theorem trans (first : program.BecomesBy allowed after) (second : after.BecomesBy allowed further) :
    program.BecomesBy allowed further := by
  obtain ⟨requests, hallowed, hrun⟩ := first
  obtain ⟨more, hmore, hrunMore⟩ := second
  refine ⟨requests ++ more, List.forall_mem_append.2 ⟨hallowed, hmore⟩, ?_⟩
  rw [Request.runAll, List.forM_append]
  exact (Step.bind_of_ok hrun).trans hrunMore

/-- One request whose answer is dropped. -/
theorem of_edit {α : Type} {step : Edit α} {answer : α} (request : Request)
    (hallowed : allowed request) (hrequest : request.run = do let _ ← step)
    (hrun : step program = .ok (answer, after)) : program.BecomesBy allowed after :=
  of_run request hallowed (by rw [hrequest]; exact (Step.drop_eq_ok fun _ => rfl).2 ⟨answer, hrun⟩)

/-- Requests of some kind are requests. -/
theorem becomes (h : program.BecomesBy allowed after) : program.Becomes after := by
  obtain ⟨requests, -, hrun⟩ := h
  exact becomes_of_runAll hrun

/-- What each request keeps that is allowed, requests in a row keep. -/
theorem keeps (kept : Program → Prop)
    (hstep : ∀ (program after : Program) (request : Request), allowed request →
      program.Reachable → kept program → request.run program = .ok ((), after) → kept after)
    (h : program.BecomesBy allowed after) (hreachable : program.Reachable) (hkept : kept program) :
    after.Reachable ∧ kept after := by
  obtain ⟨requests, hallowed, hrun⟩ := h
  induction requests generalizing program with
  | nil =>
    obtain rfl : program = after := by simpa [Request.runAll] using hrun
    exact ⟨hreachable, hkept⟩
  | cons request requests ih =>
    obtain ⟨hfirst, hothers⟩ := List.forall_mem_cons.1 hallowed
    rw [Request.runAll, List.forM_cons] at hrun
    obtain ⟨⟨⟩, middle, hmiddle, hrest⟩ := Step.bind_eq_ok.1 hrun
    exact ih (.request hreachable request hmiddle)
      (hstep program middle request hfirst hreachable hkept hmiddle) hothers hrest

/-- What becomes of a program that can come about can come about. -/
theorem reachable (h : program.BecomesBy allowed after) (hreachable : program.Reachable) :
    after.Reachable :=
  (h.keeps (fun _ => True) (fun _ _ _ _ _ _ _ => trivial) hreachable trivial).1

end BecomesBy

end Program

namespace LineReader

open Program Step

variable {α β : Type} {allowed : Request → Prop} {state : LineState}

/-! ## Steps along a line -/

/-- Whatever a step along a line makes of a program that can come about, allowed requests can make of
it, and what then holds of the answer and of the program. -/
def Asks (allowed : Request → Prop) (reader : LineReader α) (state : LineState)
    (post : α → Program → Prop) : Prop :=
  state.program.Reachable →
    OnSuccess reader state fun answer after =>
      state.program.BecomesBy allowed after.program ∧ post answer after.program

/-- A step along a line asks for what allowed requests can ask for, whatever its answer. -/
abbrev AsksOnly (allowed : Request → Prop) (reader : LineReader α) (state : LineState) : Prop :=
  Asks allowed reader state fun _ _ => True

/-- A step along a line asks for what requests can ask for. -/
abbrev AsksAny (reader : LineReader α) (state : LineState) : Prop :=
  AsksOnly (fun _ => True) reader state

/-- A step along a line asks for neither values nor instructions. -/
abbrev AsksSparing (reader : LineReader α) (state : LineState) : Prop :=
  AsksOnly Request.SparesOperands reader state

namespace Asks

variable {reader : LineReader α} {next : α → LineReader β} {post : β → Program → Prop}

/-- What is asked for with requests of some kind is asked for with requests. -/
theorem any {post : α → Program → Prop} (h : Asks allowed reader state post) :
    Asks (fun _ => True) reader state post :=
  fun hreachable => (h hreachable).mono fun _ _ hafter => ⟨hafter.1.becomes, hafter.2⟩

/-- A step that leaves the program as it is, and so keeps whatever the program has. -/
theorem of_same_keeping (property : Program → Prop)
    (h : OnSuccess reader state fun _ after => after.program = state.program)
    (hproperty : property state.program) : Asks allowed reader state fun _ => property := by
  intro _
  refine h.mono fun answer after hsame => ?_
  rw [hsame]
  exact ⟨.refl _, hproperty⟩

/-- A step that leaves the program as it is. -/
theorem of_same (h : OnSuccess reader state fun _ after => after.program = state.program) :
    AsksOnly allowed reader state :=
  of_same_keeping (fun _ => True) h trivial

/-- A step that rejects the source. -/
theorem reject {error : ReadError} {post : α → Program → Prop} :
    Asks allowed (LineReader.reject error) state post :=
  fun _ => reject_onSuccess

/-- A step that answers at once. -/
theorem pure {answer : α} {post : α → Program → Prop} (h : post answer state.program) :
    Asks allowed (Pure.pure answer) state post :=
  fun _ => .pure ⟨.refl _, h⟩

/-- Steps in a row: the second starts from a program that can come about as well. -/
theorem bind {middle : α → Program → Prop} (h : Asks allowed reader state middle)
    (hnext : ∀ answer between, middle answer between.program →
      Asks allowed (next answer) between post) :
    Asks allowed (reader >>= next) state post := by
  intro hreachable
  refine (h hreachable).bind fun answer between hbetween => ?_
  obtain ⟨hbecomes, hmiddle⟩ := hbetween
  have hthere := hnext answer between hmiddle (hbecomes.reachable hreachable)
  exact hthere.mono fun result after hafter => ⟨hbecomes.trans hafter.1, hafter.2⟩

/-- Steps in a row, whatever the answer of the first. -/
theorem seq (h : AsksOnly allowed reader state)
    (hnext : ∀ answer between, Asks allowed (next answer) between post) :
    Asks allowed (reader >>= next) state post :=
  h.bind fun answer between _ => hnext answer between

/-- A step that has succeeded without a change. -/
theorem bind_of_ok {answer : α} (h : reader state = .ok (answer, state))
    (hnext : Asks allowed (next answer) state post) : Asks allowed (reader >>= next) state post :=
  fun hreachable => .bind_of_ok h (hnext hreachable)

/-- Looking at the state first. -/
theorem get {next : LineState → LineReader β} (h : Asks allowed (next state) state post) :
    Asks allowed ((MonadState.get : LineReader LineState) >>= next) state post :=
  bind_of_ok (get_apply state) h

/-- Asking whether the next token is a word. -/
theorem atWord {word : String} {next : Bool → LineReader β}
    (h : Asks allowed (next (state.tokens.head?.any (·.isWord word))) state post) :
    Asks allowed (LineReader.atWord word >>= next) state post :=
  bind_of_ok (atWord_apply word state) h

/-- Asking whether the next token is of a class. -/
theorem atKind {kind : TokenKind} {next : Bool → LineReader β}
    (h : Asks allowed (next (state.tokens.head?.any (·.kind == kind))) state post) :
    Asks allowed (LineReader.atKind kind >>= next) state post :=
  bind_of_ok (atKind_apply kind state) h

/-- Asking whether the line is at its end. -/
theorem atEnd {next : Bool → LineReader β}
    (h : Asks allowed (next state.tokens.isEmpty) state post) :
    Asks allowed (LineReader.atEnd >>= next) state post :=
  bind_of_ok (atEnd_apply state) h

/-- An edit that requests can make. -/
theorem edit {step : Edit α} {post : α → Program → Prop}
    (h : state.program.Reachable → OnSuccess step state.program fun answer after =>
      state.program.BecomesBy allowed after ∧ post answer after) :
    Asks allowed (LineReader.edit step) state post :=
  fun hreachable => (edit_onSuccess (h hreachable)).mono fun _ _ hafter => hafter.2

/-- An edit that is a request. -/
theorem request {step : Edit α} (request : Request) (hallowed : allowed request)
    (h : request.run = do let _ ← step) : AsksOnly allowed (LineReader.edit step) state :=
  edit fun _ _ _ hrun => ⟨.of_edit request hallowed h hrun, trivial⟩

/-- A question to the program. -/
theorem ask (query : Program → Except Fault α) :
    Asks allowed (LineReader.ask query) state fun answer program => query program = .ok answer := by
  intro _
  refine (ask_onSuccess query).mono fun answer after hafter => ?_
  obtain ⟨rfl, hanswer⟩ := hafter
  exact ⟨.refl _, hanswer⟩

/-- Questions about the elements of a list. -/
theorem mapM_ask (query : β → Program → Except Fault α) (items : List β) :
    AsksOnly allowed (items.mapM fun item => LineReader.ask (query item)) state := by
  induction items generalizing state with
  | nil => exact pure trivial
  | cons item items ih =>
    rw [List.mapM_cons]
    exact (ask (query item)).bind fun _ _ _ => ih.seq fun _ _ => pure trivial

/-- A token that does not fit rejects the source. -/
theorem unexpected {expected : String} {post : α → Program → Prop} :
    Asks allowed (LineReader.unexpected expected) state post :=
  fun _ => unexpected_onSuccess

/-- Taking a token leaves the program as it is. -/
theorem take (expected : String) : AsksOnly allowed (LineReader.take expected) state :=
  of_same ((take_onSuccess expected).mono fun _ _ hafter => hafter.2)

/-- Taking a keyword leaves the program as it is. -/
theorem takeWord (word : String) : AsksOnly allowed (LineReader.takeWord word) state :=
  of_same ((takeWord_onSuccess word).mono fun _ _ hafter => hafter.2)

/-- Taking a token of a class leaves the program as it is. -/
theorem takeKind (kind : TokenKind) : AsksOnly allowed (LineReader.takeKind kind) state :=
  of_same ((takeKind_onSuccess kind).mono fun _ _ hafter => hafter.2)

/-- Reading a jump target leaves the program as it is. -/
theorem target : AsksOnly allowed LineReader.target state :=
  of_same (target_onSuccess.mono fun _ _ hafter => hafter.2)

/-- The end of a line leaves the program as it is. -/
theorem finish : AsksOnly allowed LineReader.finish state :=
  of_same (finish_onSuccess.mono fun _ _ hafter => by rw [hafter.1])

end Asks

/-! ## Operands -/

/-- Reading a type asks for it by its name. -/
theorem type_asks : AsksSparing type state := by
  refine (Asks.take _).seq fun token between => ?_
  refine (Asks.request (.getType (.ofName token.value)) trivial rfl).seq fun answer after => ?_
  split
  · exact .pure trivial
  · exact .reject
  · exact .reject

/-- A constant is read with the type of its literal. -/
theorem constant_asks : Asks Request.SparesOperands constant state fun constant program =>
    program.typeName constant.type = .ok constant.literal.typeName := by
  refine (Asks.takeWord _).seq fun _ _ => type_asks.seq fun ref _ => ?_
  refine (Asks.take _).seq fun token _ => (Asks.ask _).bind fun answer after hanswer => ?_
  -- the text of a literal is read by the name of its type
  obtain ⟨name, hname, hread⟩ := query_bind_eq_ok.1 hanswer
  cases answer with
  | error cause => exact .reject
  | ok constant =>
    obtain ⟨rfl, rfl⟩ := Constant.type_of_ofText (Except.ok.inj hread)
    exact .pure hname

/-- A literal of the type that its name gives is what a request for it creates. -/
theorem addConstant_asks {constant : Constant}
    (htype : state.program.typeName constant.type = .ok constant.literal.typeName) :
    AsksAny (edit (Edit.addValue (.constant constant))) state := by
  refine .edit fun hreachable ref after hrun => ⟨?_, trivial⟩
  have hconstant := Edit.constantOf_eq hreachable.requested.interned htype
  refine .of_run (.addConstant constant.literal) trivial ?_
  exact (Step.bind_of_ok hconstant).trans ((Step.drop_eq_ok fun _ => rfl).2 ⟨ref, hrun⟩)

/-- An operand is a register, a pointer to a global or a constant, which is created. -/
theorem value_asks : AsksAny value state := by
  refine .atKind ?_
  split
  · refine (Asks.take _).seq fun token _ => type_asks.any.seq fun ref _ => ?_
    exact .request (.addRegister token.value ref) trivial rfl
  refine .atKind ?_
  split
  · refine (Asks.take _).seq fun token _ => .get ?_
    split
    · exact .reject
    · refine (Asks.ask _).bind fun entry _ _ => ?_
      exact .request (.addGlobalPointer token.value entry.initial.type) trivial rfl
  refine .atWord ?_
  split
  · exact constant_asks.any.bind fun constant _ htype => addConstant_asks htype
  · exact .unexpected

/-- Values are read one after the other. -/
theorem valuesWithin_asks (count : Nat) : AsksAny (valuesWithin count) state := by
  induction count generalizing state with
  | zero => exact .pure trivial
  | succ count ih =>
    refine .atEnd ?_
    split
    · exact .pure trivial
    · exact value_asks.seq fun _ _ => ih.seq fun _ _ => .pure trivial

/-- Values are read up to the end of the line. -/
theorem values_asks : AsksAny values state :=
  .get (valuesWithin_asks _)

/-! ## Instructions -/

/-- Naming types asks for names alone. -/
theorem typeNames_asks (types : List (Option TypeRef)) :
    AsksOnly allowed (typeNames types) state := by
  rw [typeNames]
  refine Asks.seq ?_ fun _ _ => .pure trivial
  induction types generalizing state with
  | nil => exact .pure trivial
  | cons type types ih =>
    rw [List.mapM_cons]
    refine Asks.seq ?_ fun _ _ => ih.seq fun _ _ => .pure trivial
    cases type with
    | none => exact .pure trivial
    | some ref => exact fun h => (Asks.ask _ h).mono fun _ _ hafter => ⟨hafter.1, trivial⟩

/-- A call is created if it has a callee. -/
theorem callOf_asks (name : String) (arguments : List ValueRef) :
    AsksAny (callOf name arguments) state := by
  refine (Asks.mapM_ask (fun ref program => program.valueType ref) arguments).seq
    fun types _ => ?_
  have hreject {between : LineState} : AsksAny (do
      reject (.unresolvedCallee name (← typeNames types) (← get).line) : LineReader InstructionRef)
      between :=
    (typeNames_asks types).seq fun _ _ => .get .reject
  -- the callee is looked for only if every argument has a type
  dsimp only
  split
  · refine (Asks.ask _).bind fun callee between _ => ?_
    cases callee with
    | some function => exact .request (.addInstruction (.call function arguments)) trivial rfl
    | none => exact hreject
  · rw [pure_bind]
    exact hreject

/-- An instruction with a result is created once its operands have been read. -/
theorem producer_asks : AsksAny producer state := by
  refine .atWord ?_
  split
  · refine (Asks.take _).seq fun _ _ => (Asks.take _).seq fun token _ => ?_
    exact values_asks.seq fun arguments _ => callOf_asks token.value arguments
  refine .atWord ?_
  split
  · refine (Asks.take _).seq fun _ _ => type_asks.any.seq fun type _ => ?_
    exact .request (.addInstruction (.alloc type)) trivial rfl
  refine .atWord ?_
  split
  · refine (Asks.take _).seq fun _ _ => value_asks.seq fun pointer _ => ?_
    exact .request (.addInstruction (.load pointer)) trivial rfl
  · exact .unexpected

/-- A register is set to a value, or to the result of an instruction, which is asked for. -/
theorem assigned_asks : AsksAny assigned state := by
  refine Asks.seq (Asks.of_same fun _ _ hrun => ?_) fun producing _ => ?_
  · obtain ⟨-, rfl⟩ := Prod.mk.inj (Except.ok.inj hrun)
    rfl
  split
  · exact producer_asks.seq fun instruction _ => .request (.getResult instruction) trivial rfl
  · exact value_asks

/-- An instruction is created once its operands and its targets have been read. -/
theorem instruction_asks : AsksAny instruction state := by
  refine .atKind ?_
  split
  · refine (Asks.take _).seq fun token _ => assigned_asks.seq fun value _ => ?_
    exact .request (.addInstruction (.set token.value value)) trivial rfl
  refine .atWord ?_
  split
  · refine (Asks.take _).seq fun _ _ => .atEnd ?_
    split
    · exact (Asks.pure trivial).seq fun operand _ => .request (.addInstruction (.ret operand)) trivial rfl
    · refine Asks.seq ?_ fun operand _ => .request (.addInstruction (.ret operand)) trivial rfl
      -- a value asks for the same requests as without the `some` around it
      rw [map_eq_pure_bind]
      exact value_asks.seq fun _ _ => .pure trivial
  refine .atWord ?_
  split
  · refine (Asks.take _).seq fun _ _ => value_asks.seq fun pointer _ => ?_
    exact value_asks.seq fun value _ => .request (.addInstruction (.store pointer value)) trivial rfl
  refine .atWord ?_
  split
  · refine (Asks.take _).seq fun _ _ => Asks.target.seq fun name _ => ?_
    exact .request (.addInstruction (.jump name)) trivial rfl
  refine .atWord ?_
  split
  · refine (Asks.take _).seq fun _ _ => value_asks.seq fun condition _ => ?_
    refine Asks.target.seq fun whenTrue _ => Asks.target.seq fun whenFalse _ => ?_
    exact .request (.addInstruction (.branch condition whenTrue whenFalse)) trivial rfl
  · exact producer_asks

/-- Behind an instruction its line ends. -/
theorem instructionLine_asks : AsksAny instructionLine state :=
  instruction_asks.seq fun _ _ => Asks.finish.seq fun _ _ => .pure trivial

/-! ## Headers and globals -/

/-- Parameters are read one after the other, in pairs of a type and a name. -/
theorem paramsWithin_asks (count : Nat) : AsksSparing (paramsWithin count) state := by
  induction count generalizing state with
  | zero => exact .pure trivial
  | succ count ih =>
    refine .atEnd ?_
    split
    · exact .pure trivial
    refine .atWord ?_
    split
    · exact (Asks.take _).seq fun _ _ => Asks.finish.seq fun _ _ => .pure trivial
    · refine type_asks.seq fun _ _ => (Asks.take _).seq fun _ _ => ?_
      exact ih.seq fun _ _ => .pure trivial

/-- The function of a header is declared if there is none. -/
theorem headerOf_asks (result : TypeRef) (name : String) (params : List (TypeRef × String))
    (variadic : Bool) : AsksSparing (headerOf result name params variadic) state := by
  refine (Asks.request (.getType (.ofShape (.function ⟨result, params.map Prod.fst, variadic⟩)))
    trivial rfl).seq fun type _ => (Asks.ask _).bind fun found _ _ => ?_
  split
  · exact (Asks.pure trivial).seq fun _ _ => .pure trivial
  · exact (Asks.request (.declare name type) trivial rfl).seq fun _ _ => .pure trivial

/-- The types of a header are asked for, and then the function. -/
theorem header_asks : AsksSparing header state := by
  refine (Asks.take _).seq fun _ _ => type_asks.seq fun result _ => ?_
  refine (Asks.take _).seq fun token _ => Asks.seq (.get (paramsWithin_asks _)) fun read _ => ?_
  exact headerOf_asks result token.value read.1 read.2

/-- Naming parameters is a request. -/
theorem setParams_asks (function : FunctionRef) (params : List String) :
    AsksSparing (edit (Edit.setParams function params)) state :=
  .edit fun _ _ _ hrun => ⟨.of_run (.setParams function params) trivial hrun, trivial⟩

/-- A declaration names the parameters of a function without lines. -/
theorem declare_asks (position : Position) (header : Header) :
    AsksSparing (declare position header) state := by
  refine (Asks.ask _).bind fun _ _ _ => (Asks.ask _).bind fun entry _ _ => ?_
  split
  · exact (setParams_asks _ _).seq fun _ _ => .pure trivial
  · exact .pure trivial

/-- A definition names the parameters of its function, unless this has lines. -/
theorem define_asks (header : Header) : AsksSparing (define header) state := by
  refine (Asks.ask _).bind fun entry _ _ => ?_
  have hrest : ∀ state, AsksSparing (do
      let typeName ← ask fun program => program.typeName header.type
      edit (Edit.setParams header.function header.params)
      return ((⟨⟨some header.function, ""⟩, some header.name⟩,
        some ⟨.debug, "defining `" ++ header.name ++ "` as " ++ typeName⟩) : LineOutcome)) state :=
    fun _ => (Asks.ask _).bind fun _ _ _ => (setParams_asks _ _).seq fun _ _ => .pure trivial
  split
  · exact .get (Asks.reject.seq fun _ between => hrest between)
  · exact hrest _

/-- A global with a literal of the type that its name gives is what a request defines. -/
theorem defineGlobal_asks (name : String) {initial : Constant}
    (htype : state.program.typeName initial.type = .ok initial.literal.typeName) :
    AsksSparing (edit (Edit.defineGlobal name initial)) state := by
  refine .edit fun hreachable ref after hrun => ⟨?_, trivial⟩
  have hconstant := Edit.constantOf_eq hreachable.requested.interned htype
  refine .of_run (.define name initial.literal) trivial ?_
  exact (Step.bind_of_ok hconstant).trans ((Step.drop_eq_ok fun _ => rfl).2 ⟨ref, hrun⟩)

/-- A global is bound to a constant that has the type of its literal. -/
theorem bindGlobal_asks (position : Position) (name : String) {initial : Constant}
    (htype : state.program.typeName initial.type = .ok initial.literal.typeName) :
    AsksSparing (bindGlobal position name initial) state := by
  refine (Asks.of_same_keeping (fun program => program.typeName initial.type = _)
    ((ask_onSuccess _).mono fun _ _ hafter => by rw [hafter.1]) htype).bind fun _ _ htype => ?_
  exact (defineGlobal_asks name htype).seq fun _ _ => .pure trivial

/-- A line that defines a global asks for its constant and binds it, if the name is free. -/
theorem globalLine_asks (position : Position) : AsksSparing (globalLine position) state := by
  refine (Asks.takeWord _).seq fun _ _ => (Asks.takeKind _).seq fun token _ => .get ?_
  have hrest : ∀ state, AsksSparing (do
      let initial ← constant
      finish
      bindGlobal position token.value initial) state := by
    intro state
    refine constant_asks.bind fun initial _ htype => ?_
    refine (Asks.of_same_keeping (fun program => program.typeName initial.type = _)
      (finish_onSuccess.mono fun _ _ hafter => by rw [hafter.1]) htype).bind fun _ _ htype => ?_
    exact bindGlobal_asks position token.value htype
  split
  · exact .get (Asks.reject.seq fun _ between => hrest between)
  · exact hrest _

/-- A line outside of functions asks for neither values nor instructions. -/
theorem topLine_asks (position : Position) : AsksSparing (topLine position) state := by
  refine .atWord ?_
  split
  · exact header_asks.seq fun header _ => define_asks header
  refine .atWord ?_
  split
  · exact header_asks.seq fun header _ => declare_asks position header
  refine .atWord ?_
  split
  · exact globalLine_asks position
  refine .atWord ?_
  split
  · exact .get .reject
  · exact .of_same fun _ _ hrun => by rw [← (Prod.mk.inj (Except.ok.inj hrun)).2]

/-! ## Lines -/

/-- An instruction is appended at the cursor, if the cursor has a function. -/
theorem append_asks (position : Position) (line : Nat) (instruction : InstructionRef) :
    AsksSparing (append position line instruction) state := by
  refine (Asks.ask _).bind fun _ _ _ => Asks.seq ?_ fun answer _ => ?_
  · refine .edit fun _ answer after hrun => ⟨?_, trivial⟩
    obtain ⟨-, -, rfl⟩ | ⟨function, -, -, hlinked⟩ := Edit.cursorAppend_cases hrun
    · exact .refl _
    · exact .of_run (.append function position.cursor.label instruction) trivial hlinked
  · split
    · exact .pure trivial
    · exact .reject

section Keeps

variable {kept : Program → Prop}
  (hspared : ∀ program after : Program, program.Reachable → kept program →
    program.BecomesBy Request.SparesOperands after → kept after)
  (hinstruction : ∀ state : LineState, state.program.Reachable → kept state.program →
    OnSuccess instructionLine state fun _ after => kept after.program)

include hspared hinstruction

/-- What requests keep that spare the operands, and what the instruction of a line keeps, every line
of a function keeps. -/
theorem bodyLine_keeps (position : Position) (hreachable : state.program.Reachable)
    (h : kept state.program) :
    OnSuccess (bodyLine position) state fun _ after => kept after.program := by
  have hsparing {α : Type} {reader : LineReader α} {between : LineState}
      (hthere : between.program.Reachable) (hkept : kept between.program)
      (hasks : AsksSparing reader between) :
      OnSuccess reader between fun _ after => kept after.program :=
    (hasks hthere).mono fun _ after hafter => hspared _ _ hthere hkept hafter.1
  refine .bind_of_ok (get_apply state) (.bind_of_ok (atWord_apply _ state) ?_)
  split
  · exact hsparing hreachable h
      ((Asks.take _).seq fun _ _ => Asks.finish.seq fun _ _ => .pure trivial)
  refine .bind_of_ok (atKind_apply _ state) (.bind_of_ok (get_apply state) ?_)
  split
  · exact hsparing hreachable h ((Asks.take _).seq fun _ _ => .pure trivial)
  · have hboth : OnSuccess instructionLine state fun _ after =>
        after.program.Reachable ∧ kept after.program := fun instruction after hrun =>
      ⟨(instructionLine_asks hreachable instruction after hrun).1.reachable hreachable,
        hinstruction state hreachable h instruction after hrun⟩
    exact hboth.bind fun instruction _ hmade =>
      hsparing hmade.1 hmade.2 (append_asks position _ instruction)

/-- What requests keep that spare the operands, and what the instruction of a line keeps, every line
keeps. -/
theorem sourceLine_keeps (position : Position) (hreachable : state.program.Reachable)
    (h : kept state.program) :
    OnSuccess (sourceLine position) state fun _ after => kept after.program := by
  rw [sourceLine]
  split
  · exact bodyLine_keeps hspared hinstruction position hreachable h
  · exact (topLine_asks position hreachable).mono fun _ _ hafter =>
      hspared _ _ hreachable h hafter.1

end Keeps

/-- **Lines are requests**: whatever a line makes of a program that can come about, requests can
make of it. -/
theorem sourceLine_becomes (position : Position) (h : state.program.Reachable) :
    OnSuccess (sourceLine position) state fun _ after => state.program.Becomes after.program :=
  sourceLine_keeps (fun _ _ _ hbefore hafter => hbefore.trans hafter.becomes)
    (fun _ hthere hbefore => (instructionLine_asks hthere).mono fun _ _ hafter =>
      hbefore.trans hafter.1) position h (.refl _)

end LineReader

/-! ## Requests and lines -/

namespace Program

/-- **What a program leads to**: requests that succeed and lines that are accepted follow in any
order. A line is read at any position, and has any number and any tokens. -/
inductive Leads (program : Program) : Program → Prop
  /-- The program itself. -/
  | refl : Leads program program
  /-- One more request. -/
  | request {middle after : Program} (before : Leads program middle) (request : Request)
    (success : request.run middle = .ok ((), after)) : Leads program after
  /-- One more line. -/
  | line {middle : Program} (before : Leads program middle) (position : Position) (number : Nat)
    (tokens : List Token) {outcome : LineOutcome} {after : LineState}
    (success : (LineReader.sourceLine position).run ⟨number, tokens, middle⟩ =
      .ok (outcome, after)) : Leads program after.program

/-- Whatever a program that can come about leads to, requests alone lead to. -/
theorem Leads.becomes {program after : Program} (h : program.Leads after)
    (hreachable : program.Reachable) : program.Becomes after := by
  induction h with
  | refl => exact .refl program
  | request _ request success ih => exact ih.trans (.of_run request trivial success)
  | line _ position number tokens success ih =>
    exact ih.trans (LineReader.sourceLine_becomes position (ih.reachable hreachable) _ _ success)

end Program

end ChainIR
