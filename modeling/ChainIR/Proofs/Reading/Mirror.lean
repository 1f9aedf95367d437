import Mathlib
import ChainIR.Proofs.ReadsAlike
import ChainIR.Proofs.Reading.Meaning
import ChainIR.Proofs.Scope

/-! # Lines that are read alike

What a line means rests on the classes and the values of its tokens, never on the number of the
line, and of the globals of the program on those alone that it names. So a line that is accepted is
accepted as well, and changes the program in the same way, if its tokens stand on another line and
the program has further globals (`LineReader.sourceLine_mirrors`). Only lines that define globals
are excepted: they are refused if another global has the name. -/

namespace ChainIR

/-! ## Alike tokens -/

/-- Tokens that differ in nothing but their lines. -/
structure Token.Alike (left right : Token) : Prop where
  kind : left.kind = right.kind
  value : left.value = right.value

namespace Token.Alike

variable {left right : Token} {tokens others : List Token}

/-- Alike tokens are the same keywords and operators. -/
theorem isWord_eq (h : left.Alike right) (word : String) :
    left.isWord word = right.isWord word := by
  rw [isWord, isWord, h.kind, h.value]

/-- A property that does not rest on lines holds of both of two first tokens or of none. -/
theorem head?_any_eq {property : Token → Bool}
    (hproperty : ∀ {left right : Token}, left.Alike right → property left = property right)
    (h : List.Forall₂ Token.Alike tokens others) :
    tokens.head?.any property = others.head?.any property := by
  cases h with
  | nil => rfl
  | cons hfirst _ => exact hproperty hfirst

/-- Alike lines start with the same words. -/
theorem startWith_eq (h : List.Forall₂ Token.Alike tokens others) (word : String) :
    startWith word tokens = startWith word others :=
  head?_any_eq (fun hfirst => hfirst.isWord_eq word) h

end Token.Alike

/-! ## Wider globals -/

/-- The globals of one program, and those of another one that has no fewer. -/
structure Widening where
  /-- The globals of the one program. -/
  narrow : Scope
  /-- The globals of the other one. -/
  wide : Scope
  /-- The other program has no fewer. -/
  within : narrow.Within wide

/-- Two lines are being read at the same place, the second beside the wider globals. -/
structure Widening.Relates (widening : Widening) (state other : LineState) : Prop where
  /-- The same tokens are still to be read. -/
  tokens : List.Forall₂ Token.Alike state.tokens other.tokens
  /-- The one program has the globals that it had. -/
  scope : state.program.scope = widening.narrow
  /-- The other program differs in its globals alone. -/
  program : other.program = state.program.withScope widening.wide

namespace Widening.Relates

variable {widening : Widening} {state other : LineState} (h : widening.Relates state other)

include h

/-- The other program has entries that are what those of the one are. -/
theorem extension : state.program.Extends other.program :=
  h.program ▸ Program.extends_withScope (h.scope ▸ widening.within)

/-- A global that the one program has is found by its name in the other one. -/
theorem globalNamed?_eq {name : String} {ref : GlobalRef}
    (hname : state.program.globalNamed? name = some ref) :
    other.program.globalNamed? name = some ref := by
  rw [h.program]
  exact widening.within.names name ref (h.scope ▸ hname)

/-- A global that the one program has is the same in the other one. -/
theorem global_eq {ref : GlobalRef} {entry : Global}
    (hentry : state.program.global ref = .ok entry) : other.program.global ref = .ok entry := by
  rw [h.program]
  exact Program.found_eq_ok.2
    (widening.within.globals ref entry (h.scope ▸ Program.found_eq_ok.1 hentry))

end Widening.Relates

namespace LineReader

open Step

variable {α β : Type} {widening : Widening} {state other : LineState}

/-! ## Mirrored steps -/

/-- **Mirrored steps**: if a step along the one line is accepted, then so is the step along the
other line; the answers are related, and both lines go on at the same place. -/
def Mirrors (widening : Widening) (related : α → α → Prop) (reader image : LineReader α)
    (state other : LineState) : Prop :=
  OnSuccess reader state fun answer after =>
    Yields image other fun answer' after' => related answer answer' ∧ widening.Relates after after'

namespace Mirrors

variable {related : α → α → Prop} {related' : β → β → Prop} {reader image : LineReader α}
  {next next' : α → LineReader β}

/-- A step that is never accepted. -/
theorem of_rejected (h : OnSuccess reader state fun _ _ => False) :
    Mirrors widening related reader image state other :=
  h.mono fun _ _ => False.elim

/-- A rejection has no mirror to find. -/
theorem reject {error : ReadError} :
    Mirrors widening related (LineReader.reject error) image state other := reject_onSuccess

/-- Nor has the rejection of a token. -/
theorem unexpected {expected : String} :
    Mirrors widening related (LineReader.unexpected expected) image state other :=
  unexpected_onSuccess

/-- Related answers at the same place. -/
theorem pure {answer answer' : α} (h : widening.Relates state other)
    (hanswer : related answer answer') :
    Mirrors widening related (Pure.pure answer) (Pure.pure answer') state other :=
  OnSuccess.pure (Yields.pure ⟨hanswer, h⟩)

/-- Steps in a row. -/
theorem bind (h : Mirrors widening related reader image state other)
    (hnext : ∀ answer answer' between between', related answer answer' →
      widening.Relates between between' →
      Mirrors widening related' (next answer) (next' answer') between between') :
    Mirrors widening related' (reader >>= next) (image >>= next') state other := by
  refine OnSuccess.bind h fun answer between hbetween => ?_
  obtain ⟨answer', between', hrun, hanswer, hrelates⟩ := hbetween
  exact (hnext answer answer' between between' hanswer hrelates).mono fun _ _ hyields =>
    .bind_of_ok hrun hyields

/-- Steps in a row, the first of which has the same answer along both lines. -/
theorem seq (h : Mirrors widening Eq reader image state other)
    (hnext : ∀ answer {between between'}, widening.Relates between between' →
      Mirrors widening related' (next answer) (next' answer) between between') :
    Mirrors widening related' (reader >>= next) (image >>= next') state other :=
  h.bind fun answer _ _ _ hanswer hrelates => hanswer ▸ hnext answer hrelates

/-- Steps in a row, the first of which leaves both lines where they are. -/
theorem bind_of_ok {answer answer' : α} (hrun : reader state = .ok (answer, state))
    (hrun' : image other = .ok (answer', other))
    (hnext : Mirrors widening related' (next answer) (next' answer') state other) :
    Mirrors widening related' (reader >>= next) (image >>= next') state other :=
  OnSuccess.bind_of_ok hrun (hnext.mono fun _ _ hyields => .bind_of_ok hrun' hyields)

/-- Looking at the states first. -/
theorem get {next next' : LineState → LineReader β}
    (hnext : Mirrors widening related' (next state) (next' other) state other) :
    Mirrors widening related' (MonadState.get >>= next) (MonadState.get >>= next') state other :=
  bind_of_ok (get_apply state) (get_apply other) hnext

/-- Changing the answers. -/
theorem map {change : α → β} (h : Mirrors widening Eq reader image state other) :
    Mirrors widening Eq (change <$> reader) (change <$> image) state other := by
  rw [map_eq_pure_bind, map_eq_pure_bind]
  exact h.seq fun answer _ _ hrelates => pure hrelates rfl

variable (h : widening.Relates state other)

include h

/-- Asking whether the next token is a word. -/
theorem askWord {word : String} {next next' : Bool → LineReader β}
    (hnext : ∀ found, Mirrors widening related' (next found) (next' found) state other) :
    Mirrors widening related' (LineReader.atWord word >>= next) (LineReader.atWord word >>= next')
      state other := by
  refine bind_of_ok (atWord_apply word state) (atWord_apply word other) ?_
  rw [← Token.Alike.head?_any_eq (fun hfirst => hfirst.isWord_eq word) h.tokens]
  exact hnext _

/-- Asking whether the next token is a word, to go on in one of two ways. -/
theorem atWord {word : String} {yes yes' no no' : LineReader β}
    (hyes : Mirrors widening related' yes yes' state other)
    (hno : Mirrors widening related' no no' state other) :
    Mirrors widening related' (LineReader.atWord word >>= fun found => if found then yes else no)
      (LineReader.atWord word >>= fun found => if found then yes' else no') state other := by
  refine askWord h fun found => ?_
  cases found
  · exact hno
  · exact hyes

/-- Asking whether the next token is a word that it is not. -/
theorem atWord_of_not {word : String} {yes yes' no no' : LineReader β}
    (hword : ¬ Token.startWith word state.tokens)
    (hno : Mirrors widening related' no no' state other) :
    Mirrors widening related' (LineReader.atWord word >>= fun found => if found then yes else no)
      (LineReader.atWord word >>= fun found => if found then yes' else no') state other := by
  refine bind_of_ok (atWord_apply word state) (atWord_apply word other) ?_
  have hword' : ¬ Token.startWith word other.tokens :=
    Token.Alike.startWith_eq h.tokens word ▸ hword
  rw [Token.startWith] at hword hword'
  rw [if_neg hword, if_neg hword']
  exact hno

/-- Asking whether the next token is of a class. -/
theorem atKind {kind : TokenKind} {next next' : Bool → LineReader β}
    (hnext : ∀ found, Mirrors widening related' (next found) (next' found) state other) :
    Mirrors widening related' (LineReader.atKind kind >>= next) (LineReader.atKind kind >>= next')
      state other := by
  refine bind_of_ok (atKind_apply kind state) (atKind_apply kind other) ?_
  rw [← Token.Alike.head?_any_eq (fun hfirst => congrArg (· == kind) hfirst.kind) h.tokens]
  exact hnext _

/-- Asking whether the line is at its end. -/
theorem atEnd {next next' : Bool → LineReader β}
    (hnext : ∀ found, Mirrors widening related' (next found) (next' found) state other) :
    Mirrors widening related' (LineReader.atEnd >>= next) (LineReader.atEnd >>= next')
      state other := by
  refine bind_of_ok (atEnd_apply state) (atEnd_apply other) ?_
  have hempty : other.tokens.isEmpty = state.tokens.isEmpty := by
    rw [Bool.eq_iff_iff, List.isEmpty_iff_length_eq_zero, List.isEmpty_iff_length_eq_zero,
      h.tokens.length_eq]
  rw [hempty]
  exact hnext _

/-- An edit that spares the globals. -/
theorem edit {step : Edit α} (hstep : Edit.Spares step) :
    Mirrors widening Eq (LineReader.edit step) (LineReader.edit step) state other := by
  have hsuccess : OnSuccess step state.program fun answer program =>
      step state.program = .ok (answer, program) := fun _ _ hrun => hrun
  refine (edit_onSuccess hsuccess).mono fun answer after hafter => ?_
  obtain ⟨htokens, hrun⟩ := hafter
  -- the edit does not look at the globals, so it commutes with putting others in their place
  have hrun' : step other.program = .ok (answer, after.program.withScope widening.wide) :=
    h.program ▸ hstep.of_eq_ok hrun widening.wide
  exact ⟨answer, _, edit_of_ok hrun', rfl, htokens ▸ h.tokens, (hstep.scope_eq hrun).trans h.scope,
    rfl⟩

/-- A question that has no other answer beside the wider globals. -/
theorem asking {query : Program → Except Fault α}
    (hquery : ∀ program scope, query (program.withScope scope) = query program) :
    Mirrors widening Eq (LineReader.ask query) (LineReader.ask query) state other :=
  edit h (.ask hquery)

/-- A question that has the same answer. -/
theorem ask {query : Program → Except Fault α}
    (hquery : ∀ answer, query state.program = .ok answer → query other.program = .ok answer) :
    Mirrors widening Eq (LineReader.ask query) (LineReader.ask query) state other := by
  refine (ask_onSuccess query).mono fun answer after hafter => ?_
  obtain ⟨rfl, hanswer⟩ := hafter
  exact ⟨answer, other, ask_of_ok (hquery answer hanswer), rfl, h⟩

omit h in
/-- Steps for the elements of a list, one after the other. -/
theorem mapM {step : β → LineReader α}
    (hstep : ∀ item {state other : LineState}, widening.Relates state other →
      Mirrors widening Eq (step item) (step item) state other)
    (h : widening.Relates state other) (items : List β) :
    Mirrors widening Eq (items.mapM step) (items.mapM step) state other := by
  induction items generalizing state other with
  | nil => exact pure h rfl
  | cons item items ih =>
    rw [List.mapM_cons]
    exact (hstep item h).seq fun _ _ _ h => (ih h).seq fun _ _ _ h => pure h rfl

/-- Taking the next token. -/
theorem take (expected : String) :
    Mirrors widening Token.Alike (LineReader.take expected) (LineReader.take expected)
      state other := by
  obtain ⟨line, tokens, program⟩ := state
  obtain ⟨line', tokens', program'⟩ := other
  obtain ⟨htokens, hscope, hprogram⟩ := h
  refine get ?_
  cases htokens with
  | nil => exact unexpected
  | @cons token token' rest rest' hfirst hrest =>
    have heof : token'.isEof = token.isEof := by rw [Token.isEof, Token.isEof, hfirst.kind]
    dsimp only
    rw [heof]
    split
    · exact unexpected
    · exact OnSuccess.bind_of_ok (set_apply _ _) (.pure
        (.bind_of_ok (set_apply _ _) (.pure ⟨hfirst, hrest, hscope, hprogram⟩)))

/-- Taking a keyword. -/
theorem takeWord (word : String) :
    Mirrors widening Token.Alike (LineReader.takeWord word) (LineReader.takeWord word)
      state other :=
  atWord h (take h _) unexpected

/-- Requiring the end of the line. -/
theorem finish : Mirrors widening Eq LineReader.finish LineReader.finish state other := by
  refine atEnd h fun found => ?_
  split
  · exact unexpected
  · exact pure h rfl

end Mirrors

variable (h : widening.Relates state other)

include h

/-! ## Operands -/

/-- A type is looked up by the text of its token. -/
theorem type_mirrors : Mirrors widening Eq type type state other := by
  refine (Mirrors.take h _).bind fun token token' _ _ htoken h => ?_
  rw [htoken.value]
  refine (Mirrors.edit h (Edit.typeByName_spares _)).seq fun answer _ _ h => ?_
  split
  · exact .pure h rfl
  · exact .reject
  · exact .reject

/-- A constant is read off the text of its token. -/
theorem constant_mirrors : Mirrors widening Eq constant constant state other := by
  refine (Mirrors.takeWord h _).bind fun _ _ _ _ _ h => (type_mirrors h).seq fun ref _ _ h => ?_
  refine (Mirrors.take h _).bind fun token token' _ _ htoken h => ?_
  rw [htoken.value]
  refine (Mirrors.asking h fun _ _ => rfl).seq fun answer _ _ h => ?_
  split
  · exact .pure h rfl
  · exact .reject

/-- A global that is found is found beside the wider globals as well, with the same type. -/
theorem value_mirrors : Mirrors widening Eq value value state other := by
  refine .atKind h fun found => ?_
  split
  · refine (Mirrors.take h _).bind fun token token' _ _ htoken h => ?_
    refine (type_mirrors h).seq fun ref _ _ h => ?_
    rw [htoken.value]
    exact .edit h (Edit.addValue_spares _)
  refine .atKind h fun found => ?_
  split
  · refine (Mirrors.take h _).bind fun token token' between between' htoken h => .get ?_
    rw [htoken.value]
    cases hname : between.program.globalNamed? token'.value with
    | none => exact .reject
    | some ref =>
      rw [h.globalNamed?_eq hname]
      refine (Mirrors.ask h fun _ => h.global_eq).seq fun entry _ _ h => ?_
      exact .edit h (Edit.addValue_spares _)
  refine .atWord h ?_ .unexpected
  exact (constant_mirrors h).seq fun constant _ _ h => .edit h (Edit.addValue_spares _)

/-- A row of operands, as many as there are tokens at most. -/
theorem valuesWithin_mirrors (count : Nat) :
    Mirrors widening Eq (valuesWithin count) (valuesWithin count) state other := by
  induction count generalizing state other with
  | zero => exact .pure h rfl
  | succ count ih =>
    refine .atEnd h fun found => ?_
    split
    · exact .pure h rfl
    · exact (value_mirrors h).seq fun _ _ _ h => (ih h).seq fun _ _ _ h => .pure h rfl

/-- The operands up to the end of the line: alike lines have equally many tokens. -/
theorem values_mirrors : Mirrors widening Eq values values state other := by
  refine .get ?_
  rw [h.tokens.length_eq]
  exact valuesWithin_mirrors h _

/-- The target of a jump is the text of its token. -/
theorem target_mirrors : Mirrors widening Eq target target state other := by
  refine .atKind h fun isBlock => .atKind h fun isIdentifier => .atKind h fun isNumber => ?_
  split
  · refine (Mirrors.take h _).bind fun token token' _ _ htoken h => ?_
    exact .pure h htoken.value
  · exact .unexpected

/-! ## Instructions -/

/-- A callee that is not found is named in a message, and the line is rejected. -/
theorem callOf_mirrors (name : String) (arguments : List ValueRef) :
    Mirrors widening Eq (callOf name arguments) (callOf name arguments) state other := by
  refine (Mirrors.mapM (fun ref _ _ h => Mirrors.ask h (h.extension.readsAlike.valueType ref)) h
    arguments).seq fun types _ _ h => ?_
  extract_lets resolved
  have hresolved (callee : Option FunctionRef) {between between' : LineState}
      (h : widening.Relates between between') :
      Mirrors widening Eq (resolved callee) (resolved callee) between between' := by
    cases callee with
    | some function => exact .edit h (Edit.addInstruction_spares _)
    | none =>
      have hanything : OnSuccess (typeNames types) between fun _ _ => True := fun _ _ _ => trivial
      exact .of_rejected (hanything.bind fun _ _ _ => .get reject_onSuccess)
  split
  · exact (Mirrors.asking h fun _ _ => rfl).seq fun callee _ _ h => hresolved callee h
  · exact (Mirrors.pure h rfl).seq fun callee _ _ h => hresolved callee h

/-- A call takes the name of its callee from its token. -/
theorem call_mirrors : Mirrors widening Eq call call state other := by
  refine (Mirrors.take h _).bind fun _ _ _ _ _ h => ?_
  refine (Mirrors.take h _).bind fun token token' _ _ htoken h => ?_
  refine (values_mirrors h).seq fun arguments _ _ h => ?_
  rw [htoken.value]
  exact callOf_mirrors h _ _

/-- An instruction with a result. -/
theorem producer_mirrors : Mirrors widening Eq producer producer state other := by
  refine .atWord h (call_mirrors h) (.atWord h ?_ (.atWord h ?_ .unexpected))
  · exact (Mirrors.take h _).bind fun _ _ _ _ _ h => (type_mirrors h).seq fun _ _ _ h =>
      .edit h (Edit.addInstruction_spares _)
  · exact (Mirrors.take h _).bind fun _ _ _ _ _ h => (value_mirrors h).seq fun _ _ _ h =>
      .edit h (Edit.addInstruction_spares _)

/-- Alike lines start both with an instruction that has a result, or none does. -/
theorem atProducer_mirrors : Mirrors widening Eq atProducer atProducer state other :=
  .askWord h fun _ => .askWord h fun _ => .askWord h fun _ => .pure h rfl

/-- What is put into a register. -/
theorem assigned_mirrors : Mirrors widening Eq assigned assigned state other := by
  refine (atProducer_mirrors h).seq fun found _ _ h => ?_
  split
  · exact (producer_mirrors h).seq fun _ _ _ h => .edit h (Edit.resultValue_spares _)
  · exact value_mirrors h

/-- Each form of an instruction. -/
theorem instruction_mirrors : Mirrors widening Eq instruction instruction state other := by
  refine .atKind h fun found => ?_
  split
  · refine (Mirrors.take h _).bind fun token token' _ _ htoken h => ?_
    refine (assigned_mirrors h).seq fun value _ _ h => ?_
    rw [htoken.value]
    exact .edit h (Edit.addInstruction_spares _)
  refine .atWord h ?_ (.atWord h ?_ (.atWord h ?_ (.atWord h ?_ (producer_mirrors h))))
  · refine (Mirrors.take h _).bind fun _ _ _ _ _ h => .atEnd h fun found => ?_
    split
    · exact (Mirrors.pure h rfl).seq fun _ _ _ h => .edit h (Edit.addInstruction_spares _)
    · exact (Mirrors.map (value_mirrors h)).seq fun _ _ _ h =>
        .edit h (Edit.addInstruction_spares _)
  · refine (Mirrors.take h _).bind fun _ _ _ _ _ h => (value_mirrors h).seq fun _ _ _ h => ?_
    exact (value_mirrors h).seq fun _ _ _ h => .edit h (Edit.addInstruction_spares _)
  · refine (Mirrors.take h _).bind fun _ _ _ _ _ h => (target_mirrors h).seq fun _ _ _ h => ?_
    exact .edit h (Edit.addInstruction_spares _)
  · refine (Mirrors.take h _).bind fun _ _ _ _ _ h => (value_mirrors h).seq fun _ _ _ h => ?_
    refine (target_mirrors h).seq fun _ _ _ h => (target_mirrors h).seq fun _ _ _ h => ?_
    exact .edit h (Edit.addInstruction_spares _)

/-- An instruction up to the end of its line. -/
theorem instructionLine_mirrors :
    Mirrors widening Eq instructionLine instructionLine state other :=
  (instruction_mirrors h).seq fun _ _ _ h => (Mirrors.finish h).seq fun _ _ _ h => .pure h rfl

/-! ## Lines -/

/-- The parameters of a header, as many as there are tokens at most. -/
theorem paramsWithin_mirrors (count : Nat) :
    Mirrors widening Eq (paramsWithin count) (paramsWithin count) state other := by
  induction count generalizing state other with
  | zero => exact .pure h rfl
  | succ count ih =>
    refine .atEnd h fun found => ?_
    split
    · exact .pure h rfl
    refine .atWord h ?_ ?_
    · exact (Mirrors.take h _).bind fun _ _ _ _ _ h => (Mirrors.finish h).seq fun _ _ _ h =>
        .pure h rfl
    · refine (type_mirrors h).seq fun ref _ _ h => ?_
      refine (Mirrors.take h _).bind fun token token' _ _ htoken h => ?_
      rw [htoken.value]
      exact (ih h).seq fun _ _ _ h => .pure h rfl

/-- The parameters up to the end of the line. -/
theorem params_mirrors : Mirrors widening Eq params params state other := by
  refine .get ?_
  rw [h.tokens.length_eq]
  exact paramsWithin_mirrors h _

/-- A header finds the same function, or declares it at the same place. -/
theorem headerOf_mirrors (result : TypeRef) (name : String) (params : List (TypeRef × String))
    (variadic : Bool) : Mirrors widening Eq (headerOf result name params variadic)
      (headerOf result name params variadic) state other := by
  refine (Mirrors.edit h (Edit.functionType_spares _)).seq fun type _ _ h => ?_
  refine (Mirrors.asking h fun _ _ => rfl).seq fun found _ _ h => ?_
  split
  · exact (Mirrors.pure h rfl).seq fun _ _ _ h => .pure h rfl
  · exact (Mirrors.edit h (Edit.declareFunction_spares _ _)).seq fun _ _ _ h => .pure h rfl

/-- The header of a function. -/
theorem header_mirrors : Mirrors widening Eq header header state other := by
  refine (Mirrors.take h _).bind fun _ _ _ _ _ h => (type_mirrors h).seq fun result _ _ h => ?_
  refine (Mirrors.take h _).bind fun token token' _ _ htoken h => ?_
  rw [htoken.value]
  exact (params_mirrors h).seq fun _ _ _ h => headerOf_mirrors h _ _ _ _

/-- What lines lead to is related if it is the same position; the records name lines. -/
abbrev SamePosition (outcome outcome' : LineOutcome) : Prop := outcome.1 = outcome'.1

/-- A declaration names the parameters of the same function. -/
theorem declare_mirrors (position : Position) (header : Header) :
    Mirrors widening SamePosition (declare position header) (declare position header)
      state other := by
  refine (Mirrors.asking h fun _ _ => rfl).seq fun _ _ _ h => ?_
  refine (Mirrors.asking h fun _ _ => rfl).seq fun entry _ _ h => ?_
  split
  · exact (Mirrors.edit h (Edit.setParams_spares _ _)).seq fun _ _ _ h => .pure h rfl
  · exact .pure h rfl

/-- A definition opens the same function, or is refused. -/
theorem define_mirrors (header : Header) :
    Mirrors widening SamePosition (define header) (define header) state other := by
  refine (Mirrors.asking h fun _ _ => rfl).seq fun entry _ _ h => ?_
  split
  · exact .of_rejected (.get (.of_error rfl))
  · refine (Mirrors.asking h fun _ _ => rfl).seq fun _ _ _ h => ?_
    exact (Mirrors.edit h (Edit.setParams_spares _ _)).seq fun _ _ _ h => .pure h rfl

/-- A line outside of functions, unless it defines a global. -/
theorem topLine_mirrors (position : Position) (hglobal : ¬ Token.startWith "global" state.tokens) :
    Mirrors widening SamePosition (topLine position) (topLine position) state other := by
  refine .atWord h ?_ (.atWord h ?_ (.atWord_of_not h hglobal (.atWord h ?_ ?_)))
  · exact (header_mirrors h).seq fun header _ _ h => define_mirrors h header
  · exact (header_mirrors h).seq fun header _ _ h => declare_mirrors h position header
  · exact .of_rejected (.get reject_onSuccess)
  · exact .get (.pure h rfl)

/-- The text that the record holds is the same, since all entries are. -/
theorem append_mirrors (position : Position) (line line' : Nat) (instruction : InstructionRef) :
    Mirrors widening SamePosition (append position line instruction)
      (append position line' instruction) state other := by
  have htext : ∀ text, state.program.instructionText instruction = .ok text →
      other.program.instructionText instruction = .ok text := by
    intro text hasked
    obtain ⟨words, hwords, hlast⟩ := Program.query_bind_eq_ok.1 hasked
    exact Program.query_bind_eq_ok.2
      ⟨words, h.extension.readsAlike.instructionWords instruction words hwords, hlast⟩
  refine (Mirrors.ask h htext).seq fun text _ _ h => ?_
  refine (Mirrors.edit h (Edit.cursorAppend_spares _ _)).seq fun answer _ _ h => ?_
  split
  · exact .pure h rfl
  · exact .reject

/-- A line inside of a function. -/
theorem bodyLine_mirrors (position : Position) :
    Mirrors widening SamePosition (bodyLine position) (bodyLine position) state other := by
  refine .get (.atWord h ?_ (.atKind h fun isBlock => .get ?_))
  · exact (Mirrors.take h _).bind fun _ _ _ _ _ h => (Mirrors.finish h).seq fun _ _ _ h =>
      .pure h rfl
  rw [h.tokens.length_eq]
  split
  · refine (Mirrors.take h _).bind fun token token' _ _ htoken h => ?_
    rw [htoken.value]
    exact .pure h rfl
  · exact (instructionLine_mirrors h).seq fun instruction _ _ h =>
      append_mirrors h position _ _ instruction

/-- **Lines are read alike**: a line that is accepted is accepted beside further globals and on
whatever line, unless it defines a global. -/
theorem sourceLine_mirrors (position : Position)
    (hglobal : position.openFunction = none → ¬ Token.startWith "global" state.tokens) :
    Mirrors widening SamePosition (sourceLine position) (sourceLine position) state other := by
  rw [sourceLine]
  split
  · exact bodyLine_mirrors h position
  · next hclosed => exact topLine_mirrors h position (hglobal (by simpa using hclosed))

end LineReader

end ChainIR
