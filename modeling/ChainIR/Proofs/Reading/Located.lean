import Mathlib
import ChainIR.Proofs.Reading.Line
import ChainIR.Proofs.Reading.Run

/-! # The lines that errors name

An error names lines in several ways: some errors hold the number of a line, others a token, which
bears the number of its own line. Whatever goes wrong along a line, the error names this line and no
other one (`LineReader.sourceLine_locates`), since the tokens that are still to be read are all on
it. So the error of a physical line names the line that has been read last
(`Reader.isOn_of_readLine`). -/

namespace ChainIR

/-! ## The lines of an error -/

namespace ReadError

/-- The numbers of the lines that an error names, its own and that of its token. -/
def lines : ReadError → List Nat
  | input _ => []
  | unexpectedToken token _ => [token.line]
  | unexpectedEnd line _ => [line]
  | unterminatedLiteral token => [token.line]
  | unknownType token => [token.line]
  | malformedType token _ => [token.line]
  | malformedLiteral token _ => [token.line]
  | unresolvedCallee _ _ line => [line]
  | unknownGlobal token => [token.line]
  | redefinition _ line => [line]
  | duplicateGlobal _ line => [line]
  | strayEnd line => [line]
  | unterminatedFunction _ => []
  | build _ => []

/-- An error is on a line: it names no other line, and it is not that the source has ended. -/
structure IsOn (number : Nat) (error : ReadError) : Prop where
  lines : ∀ line ∈ error.lines, line = number
  notAtEnd : ∀ name, error ≠ .unterminatedFunction name

namespace IsOn

variable {number line : Nat} {error : ReadError}

/-- An error that names one line is on this line. -/
theorem of_line (h : error.lines = [line]) (hline : line = number) : error.IsOn number := by
  subst hline
  refine ⟨fun other hmem => by simpa [h] using hmem, ?_⟩
  rintro name rfl
  cases h

end IsOn

end ReadError

/-! ## Steps along a line -/

/-- What is still to be read stands on a line. -/
structure LineState.IsOn (number : Nat) (state : LineState) : Prop where
  line : state.line = number
  tokens : ∀ token ∈ state.tokens, token.line = number

namespace LineReader

variable {α β : Type} {number : Nat}

/-- **Steps that locate their errors**: a step along a line fails with errors on this line alone,
and if it succeeds, it stays on the line and gives answers as described. -/
def Locates (number : Nat) (answers : α → Prop) (reader : LineReader α) : Prop :=
  ∀ state : LineState, state.IsOn number →
    match reader state with
    | .ok (answer, after) => answers answer ∧ after.IsOn number
    | .error (.rejected error) => error.IsOn number
    | .error (.fault _) => True

/-- A step along a line fails with errors on this line alone, and stays on the line. -/
abbrev Local (number : Nat) (reader : LineReader α) : Prop := Locates number (fun _ => True) reader

namespace Locates

variable {answers : α → Prop} {answers' : β → Prop} {reader : LineReader α}
  {next : α → LineReader β}

/-- An answer that is as described. -/
theorem pure {answer : α} (h : answers answer) : Locates number answers (Pure.pure answer) :=
  fun _ hstate => ⟨h, hstate⟩

/-- A pure step, whatever it answers. -/
theorem done {answer : α} : Local number (Pure.pure answer) := pure trivial

/-- A rejection that is on the line. -/
theorem reject {error : ReadError} (h : error.IsOn number) :
    Locates number answers (LineReader.reject error) := fun _ _ => h

/-- Behind a rejection nothing is read. -/
theorem reject_bind {error : ReadError} (h : error.IsOn number) :
    Locates number answers' (LineReader.reject error >>= next) := fun _ _ => h

/-- Steps in a row. -/
theorem bind (h : Locates number answers reader)
    (hnext : ∀ answer, answers answer → Locates number answers' (next answer)) :
    Locates number answers' (reader >>= next) := by
  intro state hstate
  have hfirst := h state hstate
  cases hrun : reader state with
  | error failure =>
    rw [hrun] at hfirst
    rw [Step.bind_of_error hrun]
    cases failure <;> exact hfirst
  | ok result =>
    obtain ⟨answer, between⟩ := result
    rw [hrun] at hfirst
    rw [Step.bind_of_ok hrun]
    exact hnext answer hfirst.1 between hfirst.2

/-- Steps in a row, whatever the first of them answers. -/
theorem seq (h : Locates number answers reader)
    (hnext : ∀ answer, Locates number answers' (next answer)) :
    Locates number answers' (reader >>= next) :=
  h.bind fun answer _ => hnext answer

/-- Looking at the state first. -/
theorem get {next : LineState → LineReader β}
    (hnext : ∀ state, state.IsOn number → Locates number answers' (next state)) :
    Locates number answers' (MonadState.get >>= next) :=
  fun state hstate => hnext state hstate state hstate

/-- Going on at another place of the line. -/
theorem set {state : LineState} (h : state.IsOn number) : Local number (MonadStateOf.set state) :=
  fun _ _ => ⟨trivial, h⟩

/-- Changing the answers. -/
theorem map {change : α → β} (h : Locates number answers reader) :
    Local number (change <$> reader) := by
  rw [map_eq_pure_bind]
  exact h.seq fun _ => done

/-- Steps for the elements of a list, one after the other. -/
theorem mapM {step : β → LineReader α} (hstep : ∀ item, Local number (step item))
    (items : List β) : Local number (items.mapM step) := by
  induction items with
  | nil => exact done
  | cons item items ih =>
    rw [List.mapM_cons]
    exact (hstep item).seq fun _ => ih.seq fun _ => done

/-- Going on in one of two ways. -/
theorem ite {condition : Prop} [Decidable condition] {yes no : LineReader α}
    (hyes : Locates number answers yes) (hno : Locates number answers no) :
    Locates number answers (if condition then yes else no) := by
  split
  · exact hyes
  · exact hno

/-- Going on in one of two ways that the line tells. -/
theorem branch {test : LineReader Bool} {yes no : LineReader α} (htest : Local number test)
    (hyes : Locates number answers yes) (hno : Locates number answers no) :
    Locates number answers (test >>= fun found => if found then yes else no) :=
  htest.seq fun _ => .ite hyes hno

end Locates

/-! ## Steps -/

/-- The error for a wrong token names that token, or the line if it has ended. -/
theorem unexpected_locates (expected : String) {answers : α → Prop} :
    Locates number answers (unexpected expected) := by
  intro state hstate
  obtain ⟨line, tokens, program⟩ := state
  cases tokens with
  | nil => exact .of_line rfl hstate.line
  | cons token rest => exact .of_line rfl (hstate.tokens token List.mem_cons_self)

/-- Edits of the program reject nothing: they fail with faults alone. -/
theorem edit_locates (step : Edit α) : Local number (edit step) := by
  intro state hstate
  rw [edit]
  cases step.run state.program with
  | error fault => trivial
  | ok result => exact ⟨trivial, hstate.line, hstate.tokens⟩

/-- Questions about the program are edits that change nothing. -/
theorem ask_locates (query : Program → Except Fault α) : Local number (ask query) := edit_locates _

/-- Asking for a keyword rejects nothing. -/
theorem atWord_locates (word : String) : Local number (atWord word) :=
  fun _ hstate => ⟨trivial, hstate⟩

/-- Asking for a class of tokens rejects nothing. -/
theorem atKind_locates (kind : TokenKind) : Local number (atKind kind) :=
  fun _ hstate => ⟨trivial, hstate⟩

/-- Asking for the end of the line rejects nothing. -/
theorem atEnd_locates : Local number atEnd := fun _ hstate => ⟨trivial, hstate⟩

/-- The token that is taken is on the line. -/
theorem take_locates (expected : String) :
    Locates number (fun token => token.line = number) (take expected) := by
  refine .get fun state hstate => ?_
  split
  · exact unexpected_locates expected
  next token rest htokens =>
  have hrest : LineState.IsOn number { state with tokens := rest } :=
    ⟨hstate.line, fun other hmem => hstate.tokens other (htokens ▸ List.mem_cons_of_mem _ hmem)⟩
  have htoken : token.line = number := hstate.tokens token (htokens ▸ List.mem_cons_self)
  exact .ite (unexpected_locates expected) ((Locates.set hrest).seq fun _ => .pure htoken)

/-- A keyword that is taken is on the line. -/
theorem takeWord_locates (word : String) :
    Locates number (fun token => token.line = number) (takeWord word) :=
  .branch (atWord_locates word) (take_locates _) (unexpected_locates _)

/-- A token of a class that is taken is on the line. -/
theorem takeKind_locates (kind : TokenKind) :
    Locates number (fun token => token.line = number) (takeKind kind) :=
  .branch (atKind_locates kind) (take_locates _) (unexpected_locates _)

/-- What stands behind the end of a construct is an error on the line. -/
theorem finish_locates : Local number finish :=
  atEnd_locates.seq fun _ => .ite (unexpected_locates _) .done

/-! ## Operands -/

/-- An unknown or malformed type is named by its own token. -/
theorem type_locates : Local number type := by
  refine (take_locates _).bind fun token htoken => (edit_locates _).seq fun found => ?_
  split
  · exact .done
  · exact .reject (.of_line rfl htoken)
  · exact .reject (.of_line rfl htoken)

/-- A literal that is no value of its type is named by its own token. -/
theorem constant_locates : Local number constant := by
  refine (takeWord_locates _).seq fun _ => type_locates.seq fun ref => ?_
  refine (take_locates _).bind fun token htoken => (ask_locates _).seq fun read => ?_
  split
  · exact .done
  · exact .reject (.of_line rfl htoken)

/-- Each form of an operand stays on the line; an unknown global is named by its token. -/
theorem value_locates : Local number value := by
  refine .branch (atKind_locates _) ?_ (.branch (atKind_locates _) ?_
    (.branch (atWord_locates _) ?_ (unexpected_locates _)))
  · exact (take_locates _).seq fun _ => type_locates.seq fun _ => edit_locates _
  · refine (take_locates _).bind fun token htoken => .get fun state _ => ?_
    split
    · exact .reject (.of_line rfl htoken)
    · exact (ask_locates _).seq fun _ => edit_locates _
  · exact constant_locates.seq fun _ => edit_locates _

/-- All operands of a row stay on the line. -/
theorem valuesWithin_locates (count : Nat) : Local number (valuesWithin count) := by
  induction count with
  | zero => exact .done
  | succ count ih =>
    exact .branch atEnd_locates .done (value_locates.seq fun _ => ih.seq fun _ => .done)

/-- The operands up to the end of the line stay on it. -/
theorem values_locates : Local number values := .get fun _ _ => valuesWithin_locates _

/-- The target of a jump stays on the line. -/
theorem target_locates : Local number target :=
  (atKind_locates _).seq fun _ => (atKind_locates _).seq fun _ => (atKind_locates _).seq fun _ =>
    .ite ((take_locates _).seq fun _ => .done) (unexpected_locates _)

/-! ## Instructions -/

/-- Naming the types of arguments reads no tokens. -/
theorem typeNames_locates (types : List (Option TypeRef)) : Local number (typeNames types) := by
  refine (Locates.mapM (fun type => ?_) types).seq fun _ => .done
  cases type with
  | none => exact .done
  | some ref => exact ask_locates _

/-- A callee that is not found is an error on the line of the call. -/
theorem callOf_locates (name : String) (arguments : List ValueRef) :
    Local number (callOf name arguments) := by
  refine (Locates.mapM (fun _ => ask_locates _) arguments).seq fun types => ?_
  extract_lets resolved
  have hresolved (callee : Option FunctionRef) : Local number (resolved callee) := by
    cases callee with
    | some function => exact edit_locates _
    | none =>
      -- all tokens have been taken by now, and the line is the one that the state has
      exact (typeNames_locates types).seq fun _ => .get fun _ hstate =>
        .reject (.of_line rfl hstate.line)
  split
  · exact (ask_locates _).seq hresolved
  · exact Locates.done.seq hresolved

/-- A call stays on the line. -/
theorem call_locates : Local number call :=
  (take_locates _).seq fun _ => (take_locates _).seq fun _ => values_locates.seq fun _ =>
    callOf_locates _ _

/-- An instruction with a result stays on the line. -/
theorem producer_locates : Local number producer := by
  refine .branch (atWord_locates _) call_locates (.branch (atWord_locates _) ?_
    (.branch (atWord_locates _) ?_ (unexpected_locates _)))
  · exact (take_locates _).seq fun _ => type_locates.seq fun _ => edit_locates _
  · exact (take_locates _).seq fun _ => value_locates.seq fun _ => edit_locates _

/-- What is put into a register stays on the line. -/
theorem assigned_locates : Local number assigned := by
  have hasks : Local number atProducer := fun _ hstate => ⟨trivial, hstate⟩
  exact .branch hasks (producer_locates.seq fun _ => edit_locates _) value_locates

/-- Each form of an instruction stays on the line. -/
theorem instruction_locates : Local number instruction := by
  refine .branch (atKind_locates _) ?_ (.branch (atWord_locates _) ?_
    (.branch (atWord_locates _) ?_ (.branch (atWord_locates _) ?_
      (.branch (atWord_locates _) ?_ producer_locates))))
  · exact (take_locates _).seq fun _ => assigned_locates.seq fun _ => edit_locates _
  · refine (take_locates _).seq fun _ => atEnd_locates.seq fun _ => ?_
    exact .ite (Locates.done.seq fun _ => edit_locates _)
      (value_locates.map.seq fun _ => edit_locates _)
  · exact (take_locates _).seq fun _ => value_locates.seq fun _ => value_locates.seq fun _ =>
      edit_locates _
  · exact (take_locates _).seq fun _ => target_locates.seq fun _ => edit_locates _
  · exact (take_locates _).seq fun _ => value_locates.seq fun _ => target_locates.seq fun _ =>
      target_locates.seq fun _ => edit_locates _

/-- An instruction up to the end of its line stays on it. -/
theorem instructionLine_locates : Local number instructionLine :=
  instruction_locates.seq fun _ => finish_locates.seq fun _ => .done

/-! ## Lines -/

/-- The parameters of a header stay on the line. -/
theorem paramsWithin_locates (count : Nat) : Local number (paramsWithin count) := by
  induction count with
  | zero => exact .done
  | succ count ih =>
    refine .branch atEnd_locates .done (.branch (atWord_locates _) ?_ ?_)
    · exact (take_locates _).seq fun _ => finish_locates.seq fun _ => .done
    · exact type_locates.seq fun _ => (take_locates _).seq fun _ => ih.seq fun _ => .done

/-- Looking up the function of a header rejects nothing. -/
theorem headerOf_locates (result : TypeRef) (name : String) (params : List (TypeRef × String))
    (variadic : Bool) : Local number (headerOf result name params variadic) := by
  refine (edit_locates _).seq fun _ => (ask_locates _).seq fun found => ?_
  split
  · exact Locates.done.seq fun _ => .done
  · exact (edit_locates _).seq fun _ => .done

/-- The header of a function stays on the line. -/
theorem header_locates : Local number header :=
  (take_locates _).seq fun _ => type_locates.seq fun _ => (take_locates _).seq fun _ =>
    (Locates.get fun _ _ => paramsWithin_locates _).seq fun _ => headerOf_locates _ _ _ _

/-- Declaring a function rejects nothing behind the header. -/
theorem declare_locates (position : Position) (header : Header) :
    Local number (declare position header) := by
  refine (ask_locates _).seq fun _ => (ask_locates _).seq fun _ => ?_
  exact .ite ((edit_locates _).seq fun _ => .done) .done

/-- A function that is defined a second time is an error on the line of the header. -/
theorem define_locates (header : Header) : Local number (define header) := by
  refine (ask_locates _).seq fun _ => .ite (.get fun _ hstate => ?_) ?_
  · exact .reject_bind (.of_line rfl hstate.line)
  · exact (ask_locates _).seq fun _ => (edit_locates _).seq fun _ => .done

/-- A global that is defined a second time is an error on its line. -/
theorem globalLine_locates (position : Position) : Local number (globalLine position) := by
  refine (takeWord_locates _).seq fun _ => (takeKind_locates _).seq fun _ => .get fun _ _ => .ite
    (.get fun _ hstate => ?_) ?_
  · exact .reject_bind (.of_line rfl hstate.line)
  · exact constant_locates.seq fun _ => finish_locates.seq fun _ => (ask_locates _).seq fun _ =>
      (edit_locates _).seq fun _ => .done

/-- A line outside of functions fails on this line alone. -/
theorem topLine_locates (position : Position) : Local number (topLine position) := by
  refine .branch (atWord_locates _) ?_ (.branch (atWord_locates _) ?_
    (.branch (atWord_locates _) (globalLine_locates position)
      (.branch (atWord_locates _) (.get fun _ hstate => ?_) (.get fun _ _ => ?_))))
  · exact header_locates.seq fun _ => define_locates _
  · exact header_locates.seq fun _ => declare_locates position _
  · exact .reject (.of_line rfl hstate.line)
  · exact .done

/-- An instruction that cannot be put into the body names no line at all. -/
theorem append_locates (position : Position) (line : Nat) (instruction : InstructionRef) :
    Local number (append position line instruction) := by
  refine (ask_locates _).seq fun _ => (edit_locates _).seq fun answer => ?_
  split
  · exact .done
  · exact .reject ⟨by simp [ReadError.lines], by simp⟩

/-- A line inside of a function fails on this line alone. -/
theorem bodyLine_locates (position : Position) : Local number (bodyLine position) := by
  refine .get fun _ _ => .branch (atWord_locates _) ?_ ((atKind_locates _).seq fun _ =>
    .get fun _ _ => .ite ?_ ?_)
  · exact (take_locates _).seq fun _ => finish_locates.seq fun _ => .done
  · exact (take_locates _).seq fun _ => .done
  · exact instructionLine_locates.seq fun _ => append_locates position _ _

/-- **Errors are on their lines**: whatever goes wrong along a line is on this line. -/
theorem sourceLine_locates (position : Position) : Local number (sourceLine position) :=
  .ite (bodyLine_locates position) (topLine_locates position)

end LineReader

/-! ## Physical lines -/

/-- The error of a physical line is on the line that has been read last. -/
theorem Reader.isOn_of_readLine {reader : Reader} {line : SourceLine} {error : ReadError}
    (h : reader.readLine line = .error (.rejected error)) : error.IsOn (reader.line + 1) := by
  cases line with
  | undecodable =>
    obtain rfl := Failure.rejected.inj (Except.error.inj h)
    exact ⟨by simp [ReadError.lines], by simp⟩
  | text characters =>
    rw [readLine] at h
    dsimp only at h
    split at h
    · next cause hlex =>
      obtain rfl := Failure.rejected.inj (Except.error.inj h)
      cases cause with
      | undecodable =>
        rw [ReadError.ofLexError]
        exact ⟨by simp [ReadError.lines], by simp⟩
      | unterminatedLiteral token => exact .of_line rfl (Token.line_of_ofLine_error hlex)
    · cases h
    · next token tokens hlex =>
      -- all tokens of a line have its number, which is what the line reader relies on
      have hstate : LineState.IsOn (reader.line + 1)
          ⟨reader.line + 1, token :: tokens, reader.program⟩ := ⟨rfl, Token.line_of_ofLine hlex⟩
      have hlocates := LineReader.sourceLine_locates reader.position _ hstate
      rw [readTokens, StateT.run] at h
      dsimp only at h
      split at h
      · cases h
      · next failure hread =>
        rw [hread] at hlocates
        obtain rfl := Except.error.inj h
        exact hlocates

end ChainIR
