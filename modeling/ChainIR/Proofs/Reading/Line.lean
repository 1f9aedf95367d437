import Mathlib
import ChainIR.Reading.Directive
import ChainIR.Proofs.Outline.Steps
import ChainIR.Proofs.Token.Kinds

/-! # Steps along a line

A step along a line looks at tokens, takes them, edits the program or rejects the source.
`LineReader.Ensures` says what holds behind a step that is not rejected, that a rejection is one
that a source can deserve (`ReadError.Proper`), and that there is no fault. `LineState.Passes`
is what every step along a line leaves as it is. -/

namespace ChainIR

/-- An error that a source can deserve: the end of the source is no token in it, the arguments
of a call without callee all have types, and appending does not fail. -/
def ReadError.Proper : ReadError → Prop
  | .unexpectedToken token _ => token.kind ≠ .eof
  | .unresolvedCallee _ arguments _ =>
    ∃ types : List TypeTree, arguments = ", ".intercalate (types.map TypeTree.name)
  | .build _ => False
  | _ => True

/-- No token on the line is the end of the source. -/
def LineState.Endless (state : LineState) : Prop := ∀ token ∈ state.tokens, token.kind ≠ .eof

/-- What reading along a line leaves as it is: the line goes on with some of its tokens, and the
program has grown. -/
structure LineState.Passes (state after : LineState) : Prop where
  /-- The line is the same. -/
  line : after.line = state.line
  /-- The tokens are some of those before. -/
  tokens : after.tokens <:+ state.tokens
  /-- The program has grown. -/
  program : state.program.Grows after.program

namespace LineState.Passes

variable {state after further : LineState}

/-- A line has passed no token at first. -/
@[refl] theorem refl (state : LineState) : state.Passes state :=
  ⟨rfl, List.suffix_rfl, .refl _⟩

/-- Tokens are passed one after the other. -/
theorem trans (first : state.Passes after) (second : after.Passes further) :
    state.Passes further :=
  ⟨second.line.trans first.line, second.tokens.trans first.tokens,
    first.program.trans second.program⟩

/-- Behind passed tokens there is no end token either. -/
theorem endless (h : state.Passes after) (hstate : state.Endless) : after.Endless :=
  fun token hmem => hstate token (h.tokens.subset hmem)

/-- A change of the program alone. -/
theorem of_grows {program : Program} (h : state.program.Grows program) :
    state.Passes { state with program } :=
  ⟨rfl, List.suffix_rfl, h⟩

end LineState.Passes

namespace LineReader

variable {α β : Type} {state : LineState}

/-! ## What the steps do -/

@[simp] theorem peek?_apply (state : LineState) :
    peek? state = .ok (state.tokens.head?, state) := rfl

@[simp] theorem atEnd_apply (state : LineState) :
    atEnd state = .ok (state.tokens.isEmpty, state) := rfl

@[simp] theorem atWord_apply (word : String) (state : LineState) :
    atWord word state = .ok (state.tokens.head?.any (·.isWord word), state) := rfl

@[simp] theorem atKind_apply (kind : TokenKind) (state : LineState) :
    atKind kind state = .ok (state.tokens.head?.any (·.kind == kind), state) := rfl

@[simp] theorem reject_apply (error : ReadError) (state : LineState) :
    (reject error : LineReader α) state = .error (.rejected error) := rfl

/-- An edit that succeeds changes the program alone. -/
theorem edit_of_ok {step : Edit α} {answer : α} {program : Program}
    (h : step state.program = .ok (answer, program)) :
    edit step state = .ok (answer, { state with program }) := by
  rw [edit, show step.run state.program = .ok (answer, program) from h]

/-- A question that has an answer changes nothing. -/
theorem ask_of_ok {query : Program → Except Fault α} {answer : α}
    (h : query state.program = .ok answer) : ask query state = .ok (answer, state) :=
  edit_of_ok (Edit.ask_of_ok h)

/-- A token that is not the end is taken. -/
theorem take_of_cons {token : Token} {rest : List Token} (expected : String)
    (htokens : state.tokens = token :: rest) (hkind : token.kind ≠ .eof) :
    take expected state = .ok (token, { state with tokens := rest }) := by
  have heof : token.isEof = false := by simpa [Token.isEof] using hkind
  rw [take, Step.bind_of_ok (Step.get_apply state), htokens]
  simp only [heof, Bool.false_eq_true, if_false]
  rfl

/-- A line that is at its end may end. -/
theorem finish_of_nil (htokens : state.tokens = []) : finish state = .ok ((), state) := by
  rw [finish, Step.bind_of_ok (atEnd_apply state), htokens]
  rfl

/-- An edit yields what it yields of the program. -/
theorem edit_yields {step : Edit α} {post : α → Program → Prop}
    (h : Step.Yields step state.program post) :
    Step.Yields (edit step) state fun answer after =>
      after = { state with program := after.program } ∧ post answer after.program := by
  obtain ⟨answer, program, hrun, hpost⟩ := h
  exact ⟨answer, _, edit_of_ok hrun, rfl, hpost⟩

/-! ## What the steps ensure -/

/-- A step along a line either leads on as described, or rejects the source for a reason that a
source can give; it never fails otherwise. -/
def Ensures (reader : LineReader α) (state : LineState) (post : α → LineState → Prop) : Prop :=
  match reader state with
  | .ok (answer, after) => post answer after
  | .error (.rejected error) => error.Proper
  | .error (.fault _) => False

namespace Ensures

variable {reader : LineReader α} {next : α → LineReader β}

/-- A step that succeeds. -/
theorem of_yields {post : α → LineState → Prop} (h : Step.Yields reader state post) :
    Ensures reader state post := by
  obtain ⟨answer, after, hrun, hpost⟩ := h
  rw [Ensures, hrun]
  exact hpost

/-- A step that rejects the source. -/
theorem reject {error : ReadError} {post : α → LineState → Prop} (h : error.Proper) :
    Ensures (LineReader.reject error) state post := h

/-- What a step ensures may be weakened. -/
theorem mono {post weaker : α → LineState → Prop} (h : Ensures reader state post)
    (weaken : ∀ answer after, post answer after → weaker answer after) :
    Ensures reader state weaker := by
  rw [Ensures] at h ⊢
  split at h
  · exact weaken _ _ h
  · exact h
  · exact h.elim

/-- Steps in a row: the second starts from what the first ensures. -/
theorem bind {middle : α → LineState → Prop} {post : β → LineState → Prop}
    (h : Ensures reader state middle)
    (hnext : ∀ answer between, middle answer between → Ensures (next answer) between post) :
    Ensures (reader >>= next) state post := by
  rw [Ensures] at h
  split at h
  · next answer between hrun =>
    rw [Ensures, Step.bind_of_ok hrun]
    exact hnext answer between h
  · next error hrun =>
    rw [Ensures, Step.bind_of_error hrun]
    exact h
  · exact h.elim

/-- A step that is known to succeed. -/
theorem bind_of_ok {answer : α} {between : LineState} {post : β → LineState → Prop}
    (h : reader state = .ok (answer, between)) (hnext : Ensures (next answer) between post) :
    Ensures (reader >>= next) state post := by
  rw [Ensures, Step.bind_of_ok h]
  exact hnext

/-- A pure step ensures its answer. -/
theorem pure {answer : α} {post : α → LineState → Prop} (h : post answer state) :
    Ensures (Pure.pure answer) state post := h

/-- Changing the answer of a step. -/
theorem of_map {change : α → β} {post : α → LineState → Prop} (h : Ensures reader state post) :
    Ensures (change <$> reader) state fun result after =>
      ∃ answer, result = change answer ∧ post answer after := by
  rw [map_eq_pure_bind]
  exact h.bind fun answer after hafter => .pure ⟨answer, rfl, hafter⟩

/-- Looking at the state first. -/
theorem get {next : LineState → LineReader β} {post : β → LineState → Prop}
    (h : Ensures (next state) state post) :
    Ensures ((MonadState.get : LineReader LineState) >>= next) state post :=
  bind_of_ok (Step.get_apply state) h

/-- Asking whether the next token is a word. -/
theorem atWord {word : String} {next : Bool → LineReader β} {post : β → LineState → Prop}
    (h : Ensures (next (state.tokens.head?.any (·.isWord word))) state post) :
    Ensures (LineReader.atWord word >>= next) state post :=
  bind_of_ok (atWord_apply word state) h

/-- Asking whether the next token is of a class. -/
theorem atKind {kind : TokenKind} {next : Bool → LineReader β} {post : β → LineState → Prop}
    (h : Ensures (next (state.tokens.head?.any (·.kind == kind))) state post) :
    Ensures (LineReader.atKind kind >>= next) state post :=
  bind_of_ok (atKind_apply kind state) h

/-- Asking whether the line is at its end. -/
theorem atEnd {next : Bool → LineReader β} {post : β → LineState → Prop}
    (h : Ensures (next state.tokens.isEmpty) state post) :
    Ensures (LineReader.atEnd >>= next) state post :=
  bind_of_ok (atEnd_apply state) h

variable (hendless : state.Endless)

include hendless

/-- Rejecting the next token. -/
theorem unexpected {expected : String} {post : α → LineState → Prop} :
    Ensures (LineReader.unexpected expected) state post := by
  refine bind_of_ok (peek?_apply state) ?_
  cases htokens : state.tokens with
  | nil => exact get trivial
  | cons token rest => exact reject (hendless token (htokens ▸ .head rest))

/-- Taking the next token. -/
theorem take (expected : String) :
    Ensures (LineReader.take expected) state fun token after =>
      state.tokens = token :: after.tokens ∧ state.Passes after ∧
        after.program = state.program := by
  cases htokens : state.tokens with
  | nil =>
    rw [LineReader.take]
    refine .get ?_
    rw [htokens]
    exact unexpected hendless
  | cons token rest =>
    rw [Ensures, take_of_cons expected htokens (hendless token (htokens ▸ .head rest))]
    exact ⟨rfl, ⟨rfl, htokens ▸ List.suffix_cons token rest, .refl _⟩, rfl⟩

/-- Taking the next token if it is a word. -/
theorem takeWord (word : String) :
    Ensures (LineReader.takeWord word) state fun token after =>
      state.tokens = token :: after.tokens ∧ state.Passes after ∧
        after.program = state.program := by
  rw [LineReader.takeWord]
  refine .atWord ?_
  split
  · exact take hendless _
  · exact unexpected hendless

/-- Taking the next token if it is of a class. -/
theorem takeKind (kind : TokenKind) :
    Ensures (LineReader.takeKind kind) state fun token after =>
      state.tokens = token :: after.tokens ∧ state.Passes after ∧
        after.program = state.program := by
  rw [LineReader.takeKind]
  refine .atKind ?_
  split
  · exact take hendless _
  · exact unexpected hendless

/-- Checking that the line is at its end. -/
theorem finish : Ensures LineReader.finish state fun _ after => after = state := by
  rw [LineReader.finish]
  refine .atEnd ?_
  split
  · exact unexpected hendless
  · exact .pure rfl

end Ensures

end LineReader

end ChainIR
