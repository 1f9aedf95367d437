import Mathlib
import ChainIR.Proofs.Outline.Spelling
import ChainIR.Proofs.Reading.Directive

/-! # Reading what has been written

The words of an operand or a statement are read as what they are written for. Only the callee of a
call is looked for again, among the functions that are declared at that time, so a written
statement is read exactly if its call has a meaning there (`LineReader.instruction_written`). -/

namespace ChainIR

/-! ## Words as tokens -/

namespace Word

/-- The words that start a line or an operand. -/
def keywords : List String :=
  ["const", "call", "alloc", "load", "ret", "store", "jmp", "cjmp", "def", "dec", "enddef",
    "global"]

/-- A keyword is read as an identifier. -/
theorem token_keyword {text : String} (h : text ∈ keywords) (line : Nat) :
    (bare text).token line = ⟨.identifier, text, line⟩ := by
  fin_cases h <;> rfl

/-- The tokens of words on a line. -/
def tokens (line : Nat) (words : List Word) : List Token := words.map (token line)

@[simp] theorem tokens_nil (line : Nat) : tokens line [] = [] := rfl

@[simp] theorem tokens_cons (line : Nat) (word : Word) (words : List Word) :
    tokens line (word :: words) = word.token line :: tokens line words := rfl

@[simp] theorem tokens_append (line : Nat) (front back : List Word) :
    tokens line (front ++ back) = tokens line front ++ tokens line back := List.map_append

end Word

/-- An operand has words. -/
theorem Operand.words_ne_nil (operand : Operand) : operand.words ≠ [] := by
  cases operand <;> exact List.cons_ne_nil _ _

/-- In front of an operand a line has not ended. -/
theorem Operand.isEmpty_tokens_append (operand : Operand) (line : Nat) (rest : List Token) :
    (Word.tokens line operand.words ++ rest).isEmpty = false := by
  rw [Word.tokens, List.isEmpty_eq_false_iff, ne_eq, List.append_eq_nil_iff, List.map_eq_nil_iff]
  exact fun h => operand.words_ne_nil h.1

/-- An operand of which the globals are among those of an outline. -/
def Operand.Known (globals : List (String × Literal)) : Operand → Prop
  | .global name type => ∃ literal, (name, literal) ∈ globals ∧ literal.typeName = type
  | _ => True

/-- An instruction with a result whose globals are among those of an outline. -/
def Producer.Known {κ : Type} (globals : List (String × Literal)) : Producer κ → Prop
  | .call _ arguments => ∀ operand ∈ arguments, operand.Known globals
  | .alloc _ => True
  | .load pointer => pointer.Known globals

/-- A statement whose globals are among those of an outline. -/
def Statement.Known {κ : Type} (globals : List (String × Literal)) : Statement κ → Prop
  | .produce producer => producer.Known globals
  | .assign _ producer => producer.Known globals
  | .set _ operand => operand.Known globals
  | .ret operand => ∀ value ∈ operand, value.Known globals
  | .store pointer operand => pointer.Known globals ∧ operand.Known globals
  | .jump _ => True
  | .branch condition _ _ => condition.Known globals

/-! ## Tokens that are taken -/

namespace LineReader

variable {state : LineState} {outline : Outline (Statement Callee)} {line : Nat}
  {rest : List Token}

/-- The next token is taken. -/
theorem take_token {token : Token} (hkind : token.kind ≠ .eof) (expected : String)
    (htokens : state.tokens = token :: rest) :
    Step.Yields (take expected) state fun taken after =>
      taken = token ∧ state.Passes after ∧ after.tokens = rest ∧ after.program = state.program :=
  ⟨_, _, take_of_cons expected htokens hkind, rfl,
    ⟨rfl, htokens ▸ List.suffix_cons token rest, .refl _⟩, rfl, rfl⟩

/-- A plain word is taken as it is. -/
theorem take_plain {text : String} (h : Plain text) (expected : String)
    (htokens : state.tokens = (Word.bare text).token line :: rest) :
    Step.Yields (take expected) state fun token after =>
      token.value = text ∧ state.Passes after ∧ after.tokens = rest ∧
        after.program = state.program := by
  obtain ⟨kind, hkind, htoken⟩ := Word.token_plain h line
  rw [htoken] at htokens
  have heof : kind ≠ .eof := by
    rintro rfl
    exact absurd hkind (by decide)
  refine (take_token heof expected htokens).mono fun token after hafter => ?_
  obtain ⟨rfl, hafter⟩ := hafter
  exact ⟨rfl, hafter⟩

/-- A keyword is taken. -/
theorem take_keyword {text : String} (h : text ∈ Word.keywords) (expected : String)
    (htokens : state.tokens = (Word.bare text).token line :: rest) :
    Step.Yields (take expected) state fun _ after =>
      state.Passes after ∧ after.tokens = rest ∧ after.program = state.program := by
  rw [Word.token_keyword h] at htokens
  exact (take_token (by simp) expected htokens).mono fun _ _ hafter => hafter.2

/-- The next token is a keyword or another. -/
theorem atWord_keyword {text : String} (h : text ∈ Word.keywords) (word : String)
    (htokens : state.tokens = (Word.bare text).token line :: rest) :
    atWord word state = .ok (text == word, state) := by
  rw [atWord_apply, htokens, Word.token_keyword h]
  simp [Token.isWord]

/-- A mark is no word. -/
theorem atWord_marked {kind : TokenKind} {value : String} (word : String)
    (htokens : state.tokens = ⟨kind, value, line⟩ :: rest)
    (hkind : kind ≠ .identifier ∧ kind ≠ .operator) : atWord word state = .ok (false, state) := by
  rw [atWord_apply, htokens]
  simp [Token.isWord, hkind]

/-- The next token is of its class. -/
theorem atKind_token {token : Token} (kind : TokenKind) (htokens : state.tokens = token :: rest) :
    atKind kind state = .ok (token.kind == kind, state) := by
  rw [atKind_apply, htokens]
  rfl

/-- A keyword is an identifier. -/
theorem atKind_keyword {text : String} (h : text ∈ Word.keywords) (kind : TokenKind)
    (htokens : state.tokens = (Word.bare text).token line :: rest) :
    atKind kind state = .ok (.identifier == kind, state) := by
  rw [Word.token_keyword h] at htokens
  exact atKind_token kind htokens

/-! ## Operands -/

/-- A plain type is read. -/
theorem type_written (hinterned : state.program.Interned) {name : String} (h : IsTypeName name)
    (htokens : state.tokens = (Word.bare name).token line :: rest) :
    Step.Yields type state fun ref after =>
      state.Passes after ∧ after.tokens = rest ∧ after.program.typeName ref = .ok name := by
  rw [type]
  refine (take_plain h.plain _ htokens).bind fun token taken htaken => ?_
  obtain ⟨hvalue, hpasses, htaken, hprogram⟩ := htaken
  obtain ⟨tree, htree, rfl⟩ := h
  rw [← hprogram] at hinterned
  rw [hvalue]
  refine (edit_yields (Edit.typeByName_plain hinterned htree)).bind fun result after hafter => ?_
  obtain ⟨hafter, hadds, hinterned', ref, rfl, hname⟩ := hafter
  refine .pure ⟨hpasses.trans (hafter ▸ .of_grows (.of_addsTypes hadds hinterned')), ?_, hname⟩
  rw [hafter, htaken]

/-- The word of a literal is read as it. -/
theorem ofText_word (type : TypeRef) (literal : Literal) (line : Nat) :
    (literal.word.token line).kind ≠ .eof ∧
      Constant.ofText type literal.typeName (literal.word.token line).value =
        .ok ⟨type, literal⟩ := by
  cases literal with
  | num value =>
    obtain ⟨kind, hkind, htoken⟩ := Word.token_plain value.plain_text line
    rw [Literal.word, htoken]
    refine ⟨by rintro rfl; exact absurd hkind (by decide), ?_⟩
    simp [Constant.ofText, Literal.typeName, Binary64.ofNumeral?_text]
  | str text => exact ⟨nofun, rfl⟩

/-- A constant is read. -/
theorem constant_written (hinterned : state.program.Interned) (literal : Literal)
    (htokens : state.tokens = Word.tokens line literal.words ++ rest) :
    Step.Yields constant state fun constant after =>
      state.Passes after ∧ after.tokens = rest ∧ constant.literal = literal ∧
        after.program.typeName constant.type = .ok literal.typeName := by
  rw [constant, takeWord]
  simp only [bind_assoc]
  refine .bind_of_ok (atWord_keyword (by decide) _ htokens) ?_
  refine (take_keyword (by decide) _ htokens).bind fun _ behind hbehind => ?_
  obtain ⟨hpasses, hbehind, hprogram⟩ := hbehind
  rw [← hprogram] at hinterned
  refine (type_written hinterned literal.isTypeName hbehind).bind fun ref typed htyped => ?_
  obtain ⟨htype, htyped, hname⟩ := htyped
  obtain ⟨hkind, hread⟩ := ofText_word ref literal line
  refine (take_token hkind _ htyped).bind fun token after hafter => ?_
  obtain ⟨rfl, htoken, hafter, hprogram'⟩ := hafter
  rw [← hprogram'] at hname
  have hasked : after.program.constantOfText ref (literal.word.token line).value =
      .ok (.ok ⟨ref, literal⟩) := by
    rw [Program.constantOfText, hname, ← hread]
    rfl
  exact .bind_of_ok (ask_of_ok hasked) (.pure ⟨hpasses.trans (htype.trans htoken), hafter, rfl,
    hname⟩)

/-- A value is added. -/
theorem addValue_written {before : LineState} (hpasses : state.Passes before)
    (htokens : before.tokens = rest) {value : Value} {operand : Operand}
    (his : ∀ {program ref}, before.program.Extends program →
      program.values.get? ref = some value → program.OperandIs ref operand) :
    Step.Yields (edit (Edit.addValue value)) before fun ref after =>
      state.Passes after ∧ after.tokens = rest ∧ after.program.OperandIs ref operand := by
  refine (edit_yields (Edit.addValue_yields before.program value)).mono fun ref after hafter => ?_
  obtain ⟨hafter, hgrows, hvalue⟩ := hafter
  refine ⟨hpasses.trans (hafter ▸ .of_grows hgrows), ?_, his hgrows.toExtends hvalue⟩
  rw [hafter, htokens]

/-- A value is read. -/
theorem value_written (hshown : state.program.ShownBy outline) {operand : Operand}
    (hspelled : operand.Spelled) (hknown : operand.Known outline.globals)
    (htokens : state.tokens = Word.tokens line operand.words ++ rest) :
    Step.Yields value state fun ref after =>
      state.Passes after ∧ after.tokens = rest ∧ after.program.OperandIs ref operand := by
  rw [value]
  cases operand with
  | register name type =>
    rw [Operand.words, Word.tokens_cons, Word.token_register] at htokens
    refine .bind_of_ok (atKind_token _ htokens) ?_
    refine (take_token (by simp) _ htokens).bind fun token taken htaken => ?_
    obtain ⟨rfl, hpasses, htaken, hprogram⟩ := htaken
    refine (type_written (hprogram ▸ hshown.interned) hspelled.2 htaken).bind
      fun ref typed htyped => ?_
    obtain ⟨htype, htyped, hname⟩ := htyped
    exact addValue_written (hpasses.trans htype) htyped fun hextends hvalue =>
      ⟨ref, hvalue, hextends.typeName hname⟩
  | global name type =>
    -- no type is written: it is that of the value that the global starts with
    rw [Operand.words, Word.tokens_cons, Word.token_global] at htokens
    refine .bind_of_ok (atKind_token _ htokens) (.bind_of_ok (atKind_token _ htokens) ?_)
    refine (take_token (by simp) _ htokens).bind fun token taken htaken => ?_
    obtain ⟨rfl, hpasses, htaken, hprogram⟩ := htaken
    obtain ⟨ref, entry, hnamed, hentry, hname, htype⟩ := hshown.exists_global hknown
    rw [← hprogram] at hnamed hentry htype
    refine .get ?_
    rw [hnamed]
    refine .bind_of_ok (ask_of_ok (Program.found_eq_ok.2 hentry)) ?_
    refine addValue_written hpasses htaken fun hextends hvalue => ?_
    obtain ⟨entry', hentry', hname', hinitial⟩ := hextends.globals _ _ hentry
    refine ⟨ref, entry', hentry', hname'.trans hname, ?_, ?_⟩
    · rw [hinitial]
      exact hextends.typeName htype
    · rw [hinitial]
      exact .inl hvalue
  | constant literal =>
    have hfirst : state.tokens = (Word.bare "const").token line ::
        (Word.tokens line [.bare literal.typeName, literal.word] ++ rest) := htokens
    refine .bind_of_ok (atKind_keyword (by decide) _ hfirst)
      (.bind_of_ok (atKind_keyword (by decide) _ hfirst)
        (.bind_of_ok (atWord_keyword (by decide) _ hfirst) ?_))
    refine (constant_written hshown.interned literal htokens).bind fun constant read hread => ?_
    obtain ⟨hpasses, hread, rfl, hname⟩ := hread
    exact addValue_written hpasses hread fun hextends hvalue =>
      ⟨constant.type, hvalue, hextends.typeName hname⟩

/-- Values are read up to the end of the line. -/
theorem valuesWithin_written (hshown : state.program.ShownBy outline) {operands : List Operand}
    (hspelled : ∀ operand ∈ operands, operand.Spelled)
    (hknown : ∀ operand ∈ operands, operand.Known outline.globals) {count : Nat}
    (hcount : operands.length ≤ count)
    (htokens : state.tokens = Word.tokens line (operands.map Operand.words).flatten) :
    Step.Yields (valuesWithin count) state fun refs after =>
      state.Passes after ∧ after.tokens = [] ∧
        List.Forall₂ after.program.OperandIs refs operands := by
  -- one operand is one step of fuel, and no operand is without words
  induction operands generalizing state count with
  | nil =>
    cases count with
    | zero => exact .pure ⟨.refl state, htokens, .nil⟩
    | succ count =>
      rw [valuesWithin]
      refine .bind_of_ok (atEnd_apply state) ?_
      rw [htokens]
      exact .pure ⟨.refl state, htokens, .nil⟩
  | cons operand operands ih =>
    obtain ⟨hspelled, hspelleds⟩ := List.forall_mem_cons.1 hspelled
    obtain ⟨hknown, hknowns⟩ := List.forall_mem_cons.1 hknown
    rw [List.map_cons, List.flatten_cons, Word.tokens_append] at htokens
    cases count with
    | zero => exact absurd hcount (by simp)
    | succ count =>
      rw [valuesWithin]
      refine .bind_of_ok (atEnd_apply state) ?_
      rw [htokens, operand.isEmpty_tokens_append]
      refine (value_written hshown hspelled hknown htokens).bind fun ref between hbetween => ?_
      obtain ⟨hpasses, hbetween, his⟩ := hbetween
      refine (ih (hshown.grows hpasses.program) hspelleds hknowns (Nat.le_of_succ_le_succ hcount)
        hbetween).bind fun refs after hafter => ?_
      obtain ⟨hrest, hafter, hothers⟩ := hafter
      exact .pure ⟨hpasses.trans hrest, hafter, .cons (his.mono hrest.program.toExtends) hothers⟩

/-- There are at least as many words as operands. -/
theorem length_le_length_words (operands : List Operand) :
    operands.length ≤ (operands.map Operand.words).flatten.length := by
  induction operands with
  | nil => exact Nat.zero_le _
  | cons operand operands ih =>
    have hwords : 0 < operand.words.length := List.length_pos_iff.2 operand.words_ne_nil
    rw [List.map_cons, List.flatten_cons, List.length_append, List.length_cons]
    omega

/-- Values are read up to the end of the line. -/
theorem values_written (hshown : state.program.ShownBy outline) {operands : List Operand}
    (hspelled : ∀ operand ∈ operands, operand.Spelled)
    (hknown : ∀ operand ∈ operands, operand.Known outline.globals)
    (htokens : state.tokens = Word.tokens line (operands.map Operand.words).flatten) :
    Step.Yields values state fun refs after => state.Passes after ∧ after.tokens = [] ∧
      List.Forall₂ after.program.OperandIs refs operands := by
  refine .get (valuesWithin_written hshown hspelled hknown ?_ htokens)
  rw [htokens, Word.tokens, List.length_map]
  exact length_le_length_words operands

/-- A jump target is read. -/
theorem target_written {name : String} (h : IsTarget name)
    (htokens : state.tokens = (Word.bare name).token line :: rest) :
    Step.Yields target state fun result after => result = name ∧ state.Passes after ∧
      after.tokens = rest ∧ after.program = state.program := by
  obtain ⟨kind, hkind, htoken⟩ := Word.token_target h line
  have hfirst := htoken ▸ htokens
  rw [target]
  refine .bind_of_ok (atKind_token _ hfirst) (.bind_of_ok (atKind_token _ hfirst)
    (.bind_of_ok (atKind_token _ hfirst) ?_))
  rw [if_pos (by fin_cases hkind <;> rfl)]
  refine (take_token (by fin_cases hkind <;> simp) _ hfirst).bind fun token after hafter => ?_
  obtain ⟨rfl, hafter⟩ := hafter
  exact .pure ⟨rfl, hafter⟩

/-- An instruction is added. -/
theorem addInstruction_written {before : LineState} (hpasses : state.Passes before)
    (htokens : before.tokens = rest) (operation : Operation) :
    Step.Yields (edit (Edit.addInstruction operation)) before fun ref after =>
      state.Passes after ∧ after.tokens = rest ∧ before.program.Extends after.program ∧
        after.program.instructions.get? ref = some { self := ref, operation } := by
  have hadded := Edit.addInstruction_yields before.program operation
  refine (edit_yields hadded).mono fun ref after hafter => ?_
  obtain ⟨hafter, hgrows, hentry⟩ := hafter
  refine ⟨hpasses.trans (hafter ▸ .of_grows hgrows), ?_, hgrows.toExtends, hentry⟩
  rw [hafter, htokens]

/-! ## Instructions with results -/

/-- A call is read if it has a callee. -/
theorem call_written (hshown : state.program.ShownBy outline) {name : String}
    {arguments : List Operand} (hname : Plain name)
    (hspelled : ∀ operand ∈ arguments, operand.Spelled)
    (hknown : ∀ operand ∈ arguments, operand.Known outline.globals)
    (htokens : state.tokens = Word.tokens line (Producer.call name arguments).words) :
    Step.Decides call state ((Producer.call name arguments).resolve outline.prototypes)
      fun producer ref after => state.Passes after ∧ after.tokens = [] ∧
        after.program.Gives outline.prototypes ref producer := by
  rw [Producer.words, Word.tokens_append] at htokens
  rw [call]
  refine .after (take_keyword (by decide) _ htokens) fun _ behind hbehind => ?_
  obtain ⟨hkeyword, hbehind, -⟩ := hbehind
  refine .after (take_plain hname _ hbehind) fun token named hnamed => ?_
  obtain ⟨hvalue, hcallee, hnamed, -⟩ := hnamed
  have hpasses := hkeyword.trans hcallee
  refine .after (values_written (hshown.grows hpasses.program) hspelled hknown hnamed)
    fun refs after hafter => ?_
  obtain ⟨hvalues, hafter, hoperands⟩ := hafter
  have hpasses' := hpasses.trans hvalues
  have hcall := callOf_decides (hshown.grows hpasses'.program) name hoperands
  rw [hvalue]
  cases hfound : (Producer.call name arguments).resolve outline.prototypes with
  | some producer =>
    rw [hfound] at hcall
    refine hcall.mono fun ref added hadded => ?_
    exact ⟨hpasses'.trans hadded.1, hadded.2.1.trans hafter, hadded.2.2⟩
  | none =>
    rw [hfound] at hcall
    obtain ⟨types, hrun⟩ := hcall
    exact ⟨_, hrun⟩

/-- An instruction with a result is read if its call has a callee. -/
theorem producer_written (hshown : state.program.ShownBy outline) {written : Producer String}
    (hspelled : written.Spelled) (hcallee : ∀ call ∈ written.call?, Plain call.1)
    (hknown : written.Known outline.globals)
    (htokens : state.tokens = Word.tokens line written.words) :
    Step.Decides producer state (written.resolve outline.prototypes)
      fun producer ref after => state.Passes after ∧ after.tokens = [] ∧
        after.program.Gives outline.prototypes ref producer := by
  rw [producer]
  cases written with
  | call name arguments =>
    have hfirst : state.tokens = (Word.bare "call").token line :: _ := htokens
    refine .bind_of_ok (atWord_keyword (by decide) _ hfirst) ?_
    exact call_written hshown (hcallee _ rfl) hspelled hknown htokens
  | alloc name =>
    -- each form is tried in turn, and a keyword fits its own test alone
    have hfirst : state.tokens = (Word.bare "alloc").token line :: _ := htokens
    refine .bind_of_ok (atWord_keyword (by decide) _ hfirst)
      (.bind_of_ok (atWord_keyword (by decide) _ hfirst) ?_)
    refine Step.Decides.of_yields ?_
    refine (take_keyword (by decide) _ hfirst).bind fun _ behind hbehind => ?_
    obtain ⟨hkeyword, hbehind, hprogram⟩ := hbehind
    refine (type_written (hprogram ▸ hshown.interned) hspelled hbehind).bind
      fun ref typed htyped => ?_
    obtain ⟨htype, htyped, hname⟩ := htyped
    refine (addInstruction_written (hkeyword.trans htype) htyped _).mono fun added after hafter => ?_
    obtain ⟨hpasses, hafter, hextends, hinstruction⟩ := hafter
    exact ⟨hpasses, hafter, ⟨_, hinstruction, rfl, rfl, ref, rfl, hextends.typeName hname⟩, rfl⟩
  | load pointer =>
    have hfirst : state.tokens = (Word.bare "load").token line ::
      (Word.tokens line pointer.words ++ []) := by simpa [Producer.words] using htokens
    refine .bind_of_ok (atWord_keyword (by decide) _ hfirst)
      (.bind_of_ok (atWord_keyword (by decide) _ hfirst)
        (.bind_of_ok (atWord_keyword (by decide) _ hfirst) ?_))
    refine Step.Decides.of_yields ?_
    refine (take_keyword (by decide) _ hfirst).bind fun _ behind hbehind => ?_
    obtain ⟨hkeyword, hbehind, -⟩ := hbehind
    refine (value_written (hshown.grows hkeyword.program) hspelled hknown hbehind).bind
      fun ref valued hvalued => ?_
    obtain ⟨hvalue, hvalued, hoperand⟩ := hvalued
    refine (addInstruction_written (hkeyword.trans hvalue) hvalued _).mono
      fun added after hafter => ?_
    obtain ⟨hpasses, hafter, hextends, hinstruction⟩ := hafter
    exact ⟨hpasses, hafter, ⟨_, hinstruction, rfl, rfl, ref, rfl, hoperand.mono hextends⟩, rfl⟩

/-- The words of an instruction with a result start with one of three keywords. -/
theorem exists_keyword (written : Producer String)
    (htokens : state.tokens = Word.tokens line written.words) :
    ∃ word ∈ ["call", "alloc", "load"], ∃ rest,
      state.tokens = (Word.bare word).token line :: rest := by
  cases written with
  | call name arguments => exact ⟨"call", by simp, _, htokens⟩
  | alloc name => exact ⟨"alloc", by simp, _, htokens⟩
  | load pointer => exact ⟨"load", by simp, _, htokens⟩

/-- The words of an instruction with a result start one. -/
theorem atProducer_producer (written : Producer String)
    (htokens : state.tokens = Word.tokens line written.words) :
    atProducer state = .ok (true, state) := by
  obtain ⟨word, hword, rest, hrest⟩ := exists_keyword written htokens
  rw [atProducer, Step.bind_of_ok (atWord_apply _ state), Step.bind_of_ok (atWord_apply _ state),
    Step.bind_of_ok (atWord_apply _ state), hrest]
  fin_cases hword <;> rfl

/-- The words of an operand do not start an instruction. -/
theorem atProducer_operand (operand : Operand)
    (htokens : state.tokens = Word.tokens line operand.words ++ rest) :
    atProducer state = .ok (false, state) := by
  rw [atProducer, Step.bind_of_ok (atWord_apply _ state), Step.bind_of_ok (atWord_apply _ state),
    Step.bind_of_ok (atWord_apply _ state), htokens]
  cases operand with
  | register name type => simp [Operand.words, Token.isWord]
  | global name type => simp [Operand.words, Token.isWord]
  | constant literal => rfl

/-- The result of an instruction is read as what a register is set to. -/
theorem assigned_producer (hshown : state.program.ShownBy outline) (name : String)
    {written : Producer String} (hspelled : written.Spelled)
    (hcallee : ∀ call ∈ written.call?, Plain call.1) (hknown : written.Known outline.globals)
    (htokens : state.tokens = Word.tokens line written.words) :
    Step.Decides assigned state ((Statement.assign name written).resolve outline.prototypes)
      fun statement ref after => state.Passes after ∧ after.tokens = [] ∧
        after.program.OperationIs (.set name ref) statement := by
  rw [assigned]
  refine .bind_of_ok (atProducer_producer written htokens) (.map ?_)
  refine (producer_written hshown hspelled hcallee hknown htokens).bind
    fun producer inner produced _ hproduced => ?_
  obtain ⟨hpasses, hproduced, ⟨entry, hentry, -, hresult, his⟩, -⟩ := hproduced
  refine (edit_yields (Edit.resultValue_yields hentry)).mono fun ref after hafter => ?_
  obtain ⟨hafter, hgrows, hvalue⟩ := hafter
  obtain ⟨result, hinner⟩ := hgrows.instructions _ _ hentry
  refine ⟨hpasses.trans (hafter ▸ .of_grows hgrows), ?_, ref, inner, _, rfl, hvalue hresult, hinner,
    his.mono hgrows.toExtends⟩
  rw [hafter, hproduced]

/-- An operand is read as what a register is set to. -/
theorem assigned_operand (hshown : state.program.ShownBy outline) {operand : Operand}
    (hspelled : operand.Spelled) (hknown : operand.Known outline.globals)
    (htokens : state.tokens = Word.tokens line operand.words) :
    Step.Yields assigned state fun ref after => state.Passes after ∧ after.tokens = [] ∧
      after.program.OperandIs ref operand := by
  rw [← List.append_nil (Word.tokens line operand.words)] at htokens
  rw [assigned]
  refine .bind_of_ok (atProducer_operand operand htokens) ?_
  exact value_written hshown hspelled hknown htokens

/-! ## Statements -/

/-- A line has been read to its end, and an instruction has been added that holds a statement. -/
def Adds (state : LineState) (prototypes : List Prototype) (statement : Statement Callee)
    (ref : InstructionRef) (after : LineState) : Prop :=
  state.Passes after ∧ after.tokens = [] ∧ after.program.Holds prototypes ref statement

/-- The instruction of a statement is added. -/
theorem addStatement_written {before : LineState} (hpasses : state.Passes before)
    (htokens : before.tokens = []) {operation : Operation} {statement : Statement Callee}
    (his : before.program.OperationIs operation statement)
    (hmeant : statement.written.resolve outline.prototypes = some statement) :
    Step.Yields (edit (Edit.addInstruction operation)) before
      (Adds state outline.prototypes statement) := by
  refine (addInstruction_written hpasses htokens operation).mono fun ref added hadded => ?_
  obtain ⟨hadd, hrest, hextends, hinstruction⟩ := hadded
  exact ⟨hadd, hrest, ⟨_, hinstruction, rfl⟩, ⟨_, hinstruction, his.mono hextends⟩, hmeant⟩

/-- What starts with a keyword sets no register. -/
theorem atRegister_keyword {text : String} (h : text ∈ Word.keywords)
    (htokens : state.tokens = (Word.bare text).token line :: rest) :
    atKind .register state = .ok (false, state) :=
  atKind_keyword h _ htokens

section Forms

variable (hshown : state.program.ShownBy outline)

include hshown

/-- An instruction with a result that stands by itself is read if its call has a callee. -/
theorem produce_written {written : Producer String} (hspelled : written.Spelled)
    (hcallee : ∀ call ∈ written.call?, Plain call.1) (hknown : written.Known outline.globals)
    (htokens : state.tokens = Word.tokens line written.words) :
    Step.Decides instruction state ((Statement.produce written).resolve outline.prototypes)
      (Adds state outline.prototypes) := by
  have hread : Step.Decides producer state
      ((Statement.produce written).resolve outline.prototypes) (Adds state outline.prototypes) := by
    refine .map ((producer_written hshown hspelled hcallee hknown htokens).mono ?_)
    exact fun _ _ _ _ hafter => ⟨hafter.1, hafter.2.1, hafter.2.2.holds⟩
  obtain ⟨word, hword, rest, hrest⟩ := exists_keyword written htokens
  rw [instruction]
  -- none of its keywords starts a line of another form
  fin_cases hword <;>
  · refine .bind_of_ok (atRegister_keyword (by decide) hrest)
      (.bind_of_ok (atWord_keyword (by decide) _ hrest)
        (.bind_of_ok (atWord_keyword (by decide) _ hrest)
          (.bind_of_ok (atWord_keyword (by decide) _ hrest)
            (.bind_of_ok (atWord_keyword (by decide) _ hrest) ?_))))
    exact hread

/-- The result of an instruction is assigned if its call has a callee. -/
theorem assign_written {name : String} {written : Producer String} (hspelled : written.Spelled)
    (hcallee : ∀ call ∈ written.call?, Plain call.1) (hknown : written.Known outline.globals)
    (htokens : state.tokens = Word.tokens line (Statement.assign name written).words) :
    Step.Decides instruction state ((Statement.assign name written).resolve outline.prototypes)
      (Adds state outline.prototypes) := by
  rw [Statement.words, Word.tokens_cons, Word.token_register] at htokens
  rw [instruction]
  refine .bind_of_ok (atKind_token _ htokens) ?_
  refine .after (take_token (by simp) _ htokens) fun token named hnamed => ?_
  obtain ⟨rfl, hname, hnamed, -⟩ := hnamed
  refine (assigned_producer (hshown.grows hname.program) name hspelled hcallee hknown
    hnamed).bind fun statement ref after hfound hafter => ?_
  obtain ⟨hpasses, hafter, his⟩ := hafter
  refine addStatement_written (hname.trans hpasses) hafter his ?_
  rw [Statement.written_of_resolve hfound]
  exact hfound

/-- A register is set to an operand. -/
theorem set_written {name : String} {operand : Operand} (hspelled : operand.Spelled)
    (hknown : operand.Known outline.globals)
    (htokens : state.tokens =
      Word.tokens line (Statement.set name operand : Statement String).words) :
    Step.Yields instruction state (Adds state outline.prototypes (.set name operand)) := by
  rw [Statement.words, Word.tokens_cons, Word.token_register] at htokens
  rw [instruction]
  refine .bind_of_ok (atKind_token _ htokens) ?_
  refine (take_token (by simp) _ htokens).bind fun token named hnamed => ?_
  obtain ⟨rfl, hname, hnamed, -⟩ := hnamed
  refine (assigned_operand (hshown.grows hname.program) hspelled hknown hnamed).bind
    fun ref after hafter => ?_
  obtain ⟨hpasses, hafter, hoperand⟩ := hafter
  exact addStatement_written (hname.trans hpasses) hafter ⟨ref, rfl, hoperand⟩ rfl

/-- A function is left, with an operand or without. -/
theorem ret_written {operand : Option Operand} (hspelled : ∀ value ∈ operand, value.Spelled)
    (hknown : ∀ value ∈ operand, value.Known outline.globals)
    (htokens : state.tokens = Word.tokens line (Statement.ret operand : Statement String).words) :
    Step.Yields instruction state (Adds state outline.prototypes (.ret operand)) := by
  obtain ⟨words, hwords⟩ : ∃ words,
      (Statement.ret operand : Statement String).words = .bare "ret" :: words := by
    cases operand <;> exact ⟨_, rfl⟩
  rw [hwords, Word.tokens_cons] at htokens
  rw [instruction]
  refine .bind_of_ok (atRegister_keyword (by decide) htokens)
    (.bind_of_ok (atWord_keyword (by decide) _ htokens) ?_)
  refine (take_keyword (by decide) _ htokens).bind fun _ behind hbehind => ?_
  obtain ⟨hkeyword, hbehind, -⟩ := hbehind
  refine .bind_of_ok (atEnd_apply behind) ?_
  rw [hbehind]
  -- what is left tells a value from none
  cases operand with
  | none =>
    obtain rfl : [] = words := List.tail_eq_of_cons_eq hwords
    exact addStatement_written hkeyword hbehind rfl rfl
  | some operand =>
    obtain rfl : operand.words = words := List.tail_eq_of_cons_eq hwords
    rw [← List.append_nil (Word.tokens line operand.words)] at hbehind ⊢
    rw [operand.isEmpty_tokens_append]
    refine (value_written (hshown.grows hkeyword.program) (hspelled operand rfl)
      (hknown operand rfl) hbehind).of_map.bind fun result valued hvalued => ?_
    obtain ⟨ref, rfl, hvalue, hvalued, hoperand⟩ := hvalued
    exact addStatement_written (hkeyword.trans hvalue) hvalued ⟨ref, rfl, hoperand⟩ rfl

/-- An operand is stored behind a pointer. -/
theorem store_written {pointer operand : Operand} (hspelled : pointer.Spelled ∧ operand.Spelled)
    (hknown : pointer.Known outline.globals ∧ operand.Known outline.globals)
    (htokens : state.tokens =
      Word.tokens line (Statement.store pointer operand : Statement String).words) :
    Step.Yields instruction state (Adds state outline.prototypes (.store pointer operand)) := by
  rw [Statement.words, Word.tokens_cons, Word.tokens_append] at htokens
  rw [instruction]
  refine .bind_of_ok (atRegister_keyword (by decide) htokens)
    (.bind_of_ok (atWord_keyword (by decide) _ htokens)
      (.bind_of_ok (atWord_keyword (by decide) _ htokens) ?_))
  refine (take_keyword (by decide) _ htokens).bind fun _ behind hbehind => ?_
  obtain ⟨hkeyword, hbehind, -⟩ := hbehind
  refine (value_written (hshown.grows hkeyword.program) hspelled.1 hknown.1 hbehind).bind
    fun target pointed hpointed => ?_
  obtain ⟨hpointer, hpointed, htarget⟩ := hpointed
  have hpasses := hkeyword.trans hpointer
  rw [← List.append_nil (Word.tokens line operand.words)] at hpointed
  refine (value_written (hshown.grows hpasses.program) hspelled.2 hknown.2 hpointed).bind
    fun ref valued hvalued => ?_
  obtain ⟨hvalue, hvalued, hoperand⟩ := hvalued
  exact addStatement_written (hpasses.trans hvalue) hvalued
    ⟨target, ref, rfl, htarget.mono hvalue.program.toExtends, hoperand⟩ rfl

omit hshown in
/-- A jump names its target. -/
theorem jump_written {name : String} (htarget : IsTarget name)
    (htokens : state.tokens = Word.tokens line (Statement.jump name : Statement String).words) :
    Step.Yields instruction state (Adds state outline.prototypes (.jump name)) := by
  rw [Statement.words, Word.tokens_cons, Word.tokens_cons] at htokens
  rw [instruction]
  refine .bind_of_ok (atRegister_keyword (by decide) htokens)
    (.bind_of_ok (atWord_keyword (by decide) _ htokens)
      (.bind_of_ok (atWord_keyword (by decide) _ htokens)
        (.bind_of_ok (atWord_keyword (by decide) _ htokens) ?_)))
  refine (take_keyword (by decide) _ htokens).bind fun _ behind hbehind => ?_
  obtain ⟨hkeyword, hbehind, -⟩ := hbehind
  refine (target_written htarget hbehind).bind fun result after hafter => ?_
  obtain ⟨rfl, hpasses, hafter, -⟩ := hafter
  exact addStatement_written (hkeyword.trans hpasses) hafter rfl rfl

/-- A branch names its two targets. -/
theorem branch_written {condition : Operand} {whenTrue whenFalse : String}
    (hspelled : condition.Spelled) (htrue : IsTarget whenTrue) (hfalse : IsTarget whenFalse)
    (hknown : condition.Known outline.globals)
    (htokens : state.tokens =
      Word.tokens line (Statement.branch condition whenTrue whenFalse : Statement String).words) :
    Step.Yields instruction state
      (Adds state outline.prototypes (.branch condition whenTrue whenFalse)) := by
  rw [Statement.words, Word.tokens_cons, Word.tokens_append, Word.tokens_cons,
    Word.tokens_cons] at htokens
  rw [instruction]
  refine .bind_of_ok (atRegister_keyword (by decide) htokens)
    (.bind_of_ok (atWord_keyword (by decide) _ htokens)
      (.bind_of_ok (atWord_keyword (by decide) _ htokens)
        (.bind_of_ok (atWord_keyword (by decide) _ htokens)
          (.bind_of_ok (atWord_keyword (by decide) _ htokens) ?_))))
  refine (take_keyword (by decide) _ htokens).bind fun _ behind hbehind => ?_
  obtain ⟨hkeyword, hbehind, -⟩ := hbehind
  refine (value_written (hshown.grows hkeyword.program) hspelled hknown hbehind).bind
    fun ref valued hvalued => ?_
  obtain ⟨hvalue, hvalued, hcondition⟩ := hvalued
  refine (target_written htrue hvalued).bind fun first taken htaken => ?_
  obtain ⟨rfl, hfirst, htaken, -⟩ := htaken
  refine (target_written hfalse htaken).bind fun second after hafter => ?_
  obtain ⟨rfl, hsecond, hafter, -⟩ := hafter
  have htargets := hfirst.trans hsecond
  exact addStatement_written (hkeyword.trans (hvalue.trans htargets)) hafter
    ⟨ref, rfl, hcondition.mono htargets.program.toExtends⟩ rfl

/-- **Statements are read back**: a statement is read if its call has a callee. -/
theorem instruction_written {written : Statement String} (hspelled : written.Spelled IsTarget)
    (hcallee : ∀ call ∈ written.call?, Plain call.1) (hknown : written.Known outline.globals)
    (htokens : state.tokens = Word.tokens line written.words) :
    Step.Decides instruction state (written.resolve outline.prototypes)
      (Adds state outline.prototypes) := by
  cases written with
  | produce written => exact produce_written hshown hspelled hcallee hknown htokens
  | assign name written => exact assign_written hshown hspelled.2 hcallee hknown htokens
  | set name operand => exact .of_yields (set_written hshown hspelled.2 hknown htokens)
  | ret operand => exact .of_yields (ret_written hshown hspelled hknown htokens)
  | store pointer operand => exact .of_yields (store_written hshown hspelled hknown htokens)
  | jump name => exact .of_yields (jump_written hspelled htokens)
  | branch condition whenTrue whenFalse =>
    exact .of_yields
      (branch_written hshown hspelled.1 hspelled.2.1 hspelled.2.2 hknown htokens)

end Forms

end LineReader

end ChainIR
