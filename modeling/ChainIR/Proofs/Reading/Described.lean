import Mathlib
import ChainIR.Reading.Reader
import ChainIR.Proofs.Reading.Follows
import ChainIR.Proofs.Reading.Meaning

/-! # Programs that surveys describe

Between two lines of a source its survey describes where reading stands (`Survey.Describes`): the
layout of the program follows the survey, and the instructions of the program are those that the
lines say, each behind the one under it, in the order of the lines. Every line that is not
rejected keeps this up (`LineReader.sourceLine_describes`), so an accepted source builds what it
says (`Reading.exists_survey_of_ok`). -/

namespace ChainIR

namespace Program

/-- An instruction is what a line says. -/
def LineIs (program : Program) (line : InstructionLine) (ref : InstructionRef) : Prop :=
  ∃ statement, line.statement? = some statement ∧ program.StatementIs ref statement

/-- The instructions of a program are those that lines say, each behind the one under it. -/
structure MadeOf (program : Program) (made : List (InstructionLine × InstructionRef)) : Prop where
  /-- Each instruction is what its line says. -/
  lines : ∀ item ∈ made, program.LineIs item.1 item.2
  /-- There are no others, and they are in the order of the lines. -/
  refs : program.instructions.refs = made.flatMap fun item => program.unfolded item.2

namespace MadeOf

variable {program after : Program} {made : List (InstructionLine × InstructionRef)}

/-- Instructions that are there stay what they are. -/
theorem stay (h : program.MadeOf made) (hread : program.AsRead) (hentries : program.Extends after) :
    (∀ item ∈ made, after.LineIs item.1 item.2) ∧
      program.instructions.refs = made.flatMap fun item => after.unfolded item.2 := by
  have hsame : ∀ item ∈ made, after.unfolded item.2 = program.unfolded item.2 := by
    intro item hmem
    obtain ⟨statement, -, entry, hentry, -⟩ := h.lines item hmem
    exact hentries.unfolded_eq hread hentry
  refine ⟨fun item hmem => ?_, ?_⟩
  · obtain ⟨statement, hmeans, his⟩ := h.lines item hmem
    exact ⟨statement, hmeans, his.mono hentries⟩
  · rw [h.refs]
    exact List.flatMap_congr fun item hmem => (hsame item hmem).symm

/-- As long as no instruction is created, nothing is new. -/
theorem keeps (h : program.MadeOf made) (hread : program.AsRead) (hkeeps : program.Keeps after) :
    after.MadeOf made := by
  obtain ⟨hlines, hrefs⟩ := h.stay hread hkeeps.entries
  exact ⟨hlines, by rw [Arena.refs_congr hkeeps.size, hrefs]⟩

/-- A line adds what it says. -/
theorem adds (h : program.MadeOf made) (hread : program.AsRead) (line : InstructionLine)
    {ref : InstructionRef} {written : Statement String}
    (hline : Statement.ofLine? line.globals line.tokens = some written)
    (hmeans : program.Says after line.declared ref written) :
    after.MadeOf (made ++ [(line, ref)]) := by
  obtain ⟨hlines, hrefs⟩ := h.stay hread hmeans.grows.toExtends
  refine ⟨fun item hmem => ?_, ?_⟩
  · rcases List.mem_append.1 hmem with hold | hlast
    · exact hlines item hold
    · obtain rfl := List.mem_singleton.1 hlast
      obtain ⟨statement, hmeant, his⟩ := hmeans.is
      exact ⟨statement, by rw [InstructionLine.statement?, hline]; exact hmeant, his⟩
  · rw [hmeans.refs, hrefs, List.flatMap_append, List.flatMap_singleton]

end MadeOf

end Program

/-- The position agrees with a survey: outside of definitions no function is open, and in a
definition the cursor is at its function and at the label in force. -/
def Position.At {σ : Type} (position : Position) (layout : Outline σ) : Option Definition → Prop
  | none => position.openFunction = none
  | some definition => position.openFunction.isSome ∧
      position.cursor.label = definition.label ∧ definition.declared = layout.prototypes ∧
      definition.globals = layout.globals ∧
      ∃ function, position.cursor.function = some function ∧
        layout.prototypes[function.index]? = some definition.prototype

/-- **Surveys that describe readers**: a survey describes where reading stands. -/
structure Survey.Describes (survey : Survey) (position : Position) (program : Program)
    (layout : Outline InstructionRef) (made : List (InstructionLine × InstructionRef)) : Prop where
  /-- The program is laid out. -/
  formed : program.WellFormed layout
  /-- Reading leaves such programs. -/
  read : program.Read
  /-- The instructions are those of the lines. -/
  instructions : program.MadeOf made
  /-- The layout follows the survey. -/
  follows : layout.Follows survey made
  /-- Parameters have the names that headers give them. -/
  named : layout.Named survey.headers
  /-- The position agrees. -/
  at_ : position.At layout survey.current

namespace Survey.Describes

variable {survey : Survey} {position : Position} {program : Program}
  {layout : Outline InstructionRef} {made : List (InstructionLine × InstructionRef)}
  (h : survey.Describes position program layout made)

include h

/-- Outside of definitions no function is open. -/
theorem openFunction_eq_none (hclosed : survey.current = none) : position.openFunction = none := by
  have hposition := h.at_
  rw [hclosed] at hposition
  exact hposition

/-- In a definition the position agrees with it. -/
theorem at_of_some {definition : Definition} (hopen : survey.current = some definition) :
    position.At layout (some definition) := by
  have hposition := h.at_
  rw [hopen] at hposition
  exact hposition

end Survey.Describes

namespace LineReader

open Program Step

variable {state : LineState} {layout : Outline InstructionRef}

/-! ## Headers -/

/-- Parameters are read up to the end of the line. -/
theorem paramsWithin_onSuccess (h : state.program.Read) {count : Nat}
    (hcount : state.tokens.length ≤ count) :
    OnSuccess (paramsWithin count) state fun result after => ∃ params,
      Prototype.paramsOf? state.tokens = some (params, result.2) ∧
        state.program.Builds after.program 0 ∧
        List.Forall₂ (fun param named => after.program.typeName param.1 = .ok named.1 ∧
          param.2 = named.2) result.1 params := by
  -- a parameter has tokens, so there are never more parameters than the bound allows
  induction count generalizing state with
  | zero =>
    have htokens : state.tokens = [] := List.length_eq_zero_iff.1 (Nat.le_zero.1 hcount)
    exact .pure ⟨[], by rw [htokens]; rfl, .of_eq h rfl, .nil⟩
  | succ count ih =>
    refine .bind_of_ok (atEnd_apply state) ?_
    split
    · next hend =>
      have htokens : state.tokens = [] := List.isEmpty_iff.1 hend
      exact .pure ⟨[], by rw [htokens]; rfl, .of_eq h rfl, .nil⟩
    refine .bind_of_ok (atWord_apply "?" state) ?_
    split
    · next hmark =>
      refine (take_onSuccess _).bind fun mark behind hbehind => ?_
      obtain ⟨htokens, hprogram⟩ := hbehind
      refine finish_onSuccess.bind fun _ after hafter => ?_
      obtain ⟨rfl, hend⟩ := hafter
      refine .pure ⟨[], ?_, .of_eq h hprogram, .nil⟩
      rw [htokens] at hmark
      rw [htokens, hend]
      exact if_pos (by simpa using hmark)
    next hmark =>
    refine (type_onSuccess h).bind fun ref typed htyped => ?_
    obtain ⟨type, htype, hbuilds, hname⟩ := htyped
    refine (take_onSuccess _).bind fun name named hnamed => ?_
    obtain ⟨htokens, hprogram⟩ := hnamed
    rw [← hprogram] at hname hbuilds
    rw [htype, htokens] at hmark hcount
    refine (ih hbuilds.read (by simp at hcount; omega)).bind fun result after hafter => ?_
    obtain ⟨params, hparams, hbuilds', hall⟩ := hafter
    refine .pure ⟨(type.typeName, name.value) :: params, ?_, hbuilds.trans hbuilds',
      .cons ⟨hbuilds'.grows.toExtends.typeName hname, rfl⟩ hall⟩
    have hword : type.isWord "?" = false := by simpa using hmark
    rw [htype, htokens, Prototype.paramsOf?, hword, hparams]
    rfl

/-- The function of a header is declared if it was not. -/
theorem headerOf_onSuccess (h : state.program.Read) (hformed : state.program.WellFormed layout)
    {result : TypeRef} {params : List (TypeRef × String)} (prototype : Prototype)
    (hresult : state.program.typeName result = .ok prototype.result)
    (hparams : List.Forall₂ (fun param name => state.program.typeName param.1 = .ok name) params
      prototype.params) :
    OnSuccess (headerOf result prototype.name params prototype.variadic) state
      fun header after => header.params = params.map Prod.snd ∧
        state.program.Keeps after.program ∧
        after.program.WellFormed (layout.including prototype) ∧
        (layout.including prototype).prototypes[header.function.index]? = some prototype := by
  have hnames : List.Forall₂ (fun param name => state.program.typeName param = .ok name)
      (Signature.mk result (params.map Prod.fst) prototype.variadic).params prototype.params :=
    List.forall₂_map_left_iff.2 hparams
  have htyped : OnSuccess (Edit.functionType ⟨result, params.map Prod.fst, prototype.variadic⟩)
      state.program fun type after => state.program.Keeps after ∧ after.WellFormed layout ∧
        after.PrototypeIs type prototype := by
    intro type after hrun
    obtain ⟨hgrows, htype⟩ :=
      (Edit.functionType_prototype h.requested.interned hresult hnames rfl).of_eq_ok hrun
    exact ⟨Edit.read_of_functionType h hrun, hformed.grows hgrows, htype⟩
  refine (edit_onSuccess htyped).bind fun type typed hafter => ?_
  obtain ⟨-, hkeeps, hformed', htype⟩ := hafter
  have hfound := hformed'.functionOfType?_eq htype
  refine .bind_of_ok (ask_of_ok hfound) ?_
  cases hindex : layout.prototypes.findIdx? (· == prototype) with
  | none => -- a new function, behind all others
    have hnew : prototype ∉ layout.prototypes := by
      intro hmem
      simpa using List.findIdx?_eq_none_iff.1 hindex prototype hmem
    have hdeclared : OnSuccess (Edit.declareFunction prototype.name type) typed.program
        fun ref after => ref = ⟨layout.routines.length⟩ ∧ typed.program.Keeps after ∧
          after.WellFormed (layout.declare prototype) := by
      intro ref after hrun
      obtain ⟨href, hformed'', -⟩ :=
        (Edit.declareFunction_yields hformed' htype hnew).of_eq_ok hrun
      exact ⟨href, Edit.read_of_declareFunction hkeeps.read hrun, hformed''⟩
    refine (edit_onSuccess hdeclared).bind fun function after hafter => ?_
    obtain ⟨-, rfl, hkeeps', hformed''⟩ := hafter
    rw [Outline.including, if_neg hnew]
    refine .pure ⟨rfl, hkeeps.trans hkeeps', hformed'', ?_⟩
    rw [Outline.prototypes_declare, ← layout.length_prototypes, List.getElem?_concat_length]
  | some index => -- a function that was declared before
    obtain ⟨hlt, hequal, -⟩ := List.findIdx?_eq_some_iff_getElem.1 hindex
    have hprototype : layout.prototypes[index]? = some prototype := by
      rw [List.getElem?_eq_getElem hlt, eq_of_beq hequal]
    rw [Outline.including, if_pos (List.mem_of_getElem? hprototype)]
    exact .pure ⟨rfl, hkeeps, hformed', hprototype⟩

/-- A header is read. -/
theorem header_onSuccess (h : state.program.Read) (hformed : state.program.WellFormed layout) :
    OnSuccess header state fun header after => ∃ prototype,
      Prototype.ofHeader? state.tokens = some (prototype, header.params) ∧
        state.program.Keeps after.program ∧
        after.program.WellFormed (layout.including prototype) ∧
        (layout.including prototype).prototypes[header.function.index]? = some prototype := by
  refine (take_onSuccess _).bind fun keyword behind hbehind => ?_
  obtain ⟨hkeyword, hprogram⟩ := hbehind
  rw [← hprogram] at h hformed ⊢
  refine (type_onSuccess h).bind fun result typed htyped => ?_
  obtain ⟨resultToken, htype, hbuilds, hresult⟩ := htyped
  refine (take_onSuccess _).bind fun name named hnamed => ?_
  obtain ⟨hname, hsame⟩ := hnamed
  rw [← hsame] at hbuilds hresult
  refine OnSuccess.bind (.get (paramsWithin_onSuccess hbuilds.read le_rfl))
    fun params read hread => ?_
  obtain ⟨pairs, hpairs, hbuilds', hall⟩ := hread
  have hbuilt := hbuilds.trans hbuilds'
  -- the types of the parameters make up the prototype, and their names are kept apart
  have hparams : List.Forall₂ (fun param name => read.program.typeName param.1 = .ok name)
      params.1 (pairs.map Prod.fst) :=
    List.forall₂_map_right_iff.2 (hall.imp fun _ _ hparam => hparam.1)
  have hnames : params.1.map Prod.snd = pairs.map Prod.snd := by
    rw [← List.forall₂_eq_eq_eq, List.forall₂_map_left_iff, List.forall₂_map_right_iff]
    exact hall.imp fun _ _ hparam => hparam.2
  refine (headerOf_onSuccess hbuilt.read (hformed.grows hbuilt.grows)
    ⟨name.value, resultToken.typeName, pairs.map Prod.fst, params.2⟩
    (hbuilds'.grows.toExtends.typeName hresult) hparams).mono fun header after hafter => ?_
  obtain ⟨hheader, hkeeps, hformed', hfunction⟩ := hafter
  refine ⟨_, ?_, ⟨hkeeps.read, hbuilt.grows.toExtends.trans hkeeps.entries,
    hkeeps.size.trans hbuilt.size⟩, hformed', hfunction⟩
  rw [hkeyword, htype, hname, Prototype.ofHeader?, hpairs, hheader, hnames]
  rfl

/-- The parameters of a function are named. -/
theorem setParams_onSuccess (h : state.program.Read) (hformed : state.program.WellFormed layout)
    (function : FunctionRef) (params : List String) :
    OnSuccess (edit (Edit.setParams function params)) state fun _ after =>
      state.program.Keeps after.program ∧
        after.program.WellFormed (layout.modify function (·.withParams params)) := by
  have hnamed : OnSuccess (Edit.setParams function params) state.program fun _ after =>
      state.program.Keeps after ∧
        after.WellFormed (layout.modify function (·.withParams params)) := by
    intro _ after hrun
    obtain ⟨entry, hentry, -⟩ := Edit.exists_of_updateFunction hrun
    obtain ⟨hformed', -⟩ := (Edit.setParams_yields hformed hentry params).of_eq_ok hrun
    exact ⟨Edit.read_of_setParams h hrun, hformed'⟩
  exact (edit_onSuccess hnamed).mono fun _ _ hafter => hafter.2

/-! ## Lines outside of definitions -/

section Outside

variable {survey : Survey} {position : Position}
  {made : List (InstructionLine × InstructionRef)}
  (h : survey.Describes position state.program layout made) (hclosed : survey.current = none)

include h

/-- What a header says of a survey and of a program. -/
theorem headerLine_onSuccess : OnSuccess header state fun header after => ∃ prototype,
    Prototype.ofHeader? state.tokens = some (prototype, header.params) ∧
      after.program.Read ∧ after.program.MadeOf made ∧
      after.program.WellFormed (layout.including prototype) ∧
      (layout.including prototype).prototypes[header.function.index]? = some prototype := by
  refine (header_onSuccess h.read h.formed).mono fun header after hafter => ?_
  obtain ⟨prototype, hheader, hkeeps, hformed, hfunction⟩ := hafter
  exact ⟨prototype, hheader, hkeeps.read, h.instructions.keeps h.read.toAsRead hkeeps, hformed,
    hfunction⟩

include hclosed

omit h in
/-- Outside of definitions the position agrees with every layout. -/
theorem at_of_none (hposition : position.openFunction = none) {σ : Type} (layout' : Outline σ) :
    position.At layout' survey.current := by
  rw [hclosed]
  exact hposition

/-- A function is declared. -/
theorem declareLine_describes : OnSuccess (header >>= declare position) state fun outcome after =>
    ∃ prototype names layout', Prototype.ofHeader? state.tokens = some (prototype, names) ∧
      (survey.withHeader prototype).Describes outcome.1 after.program layout' made := by
  refine (headerLine_onSuccess h).bind fun header read hread => ?_
  obtain ⟨prototype, hheader, hread, hmade, hformed, hfunction⟩ := hread
  have hfollows := h.follows.including prototype
  have hposition := h.openFunction_eq_none hclosed
  refine (ask_onSuccess _).bind fun _ asked hasked => ?_
  obtain ⟨rfl, -⟩ := hasked
  refine (ask_onSuccess _).bind fun entry asked hasked => ?_
  obtain ⟨rfl, hentry⟩ := hasked
  obtain ⟨routine, hroutine, his⟩ := hformed.functions _ entry (found_eq_ok.1 hentry)
  split
  · refine (setParams_onSuccess hread hformed header.function header.params).bind
      fun _ after hafter => ?_
    obtain ⟨hkeeps, hformed'⟩ := hafter
    exact .pure ⟨prototype, header.params, _, hheader, hformed', hkeeps.read,
      hmade.keeps hread.toAsRead hkeeps, hfollows.withParams header.function header.params,
      h.named.withParams hformed.prototypes hfunction (Prototype.length_of_ofHeader? hheader),
      at_of_none hclosed hposition _⟩
  · next hparams => -- names that are there are kept
    have hnames : routine.params ≠ [] := by
      intro hnil
      rw [his.params, hnil] at hparams
      exact hparams rfl
    exact .pure ⟨prototype, header.params, _, hheader, hformed, hread, hmade, hfollows,
      h.named.keep hformed.prototypes hfunction hroutine hnames, at_of_none hclosed hposition _⟩

/-- A definition begins. -/
theorem defineLine_describes : OnSuccess (header >>= define) state fun outcome after =>
    ∃ prototype names layout', Prototype.ofHeader? state.tokens = some (prototype, names) ∧
      (survey.opened prototype).Describes outcome.1 after.program layout' made := by
  refine (headerLine_onSuccess h).bind fun header read hread => ?_
  obtain ⟨prototype, hheader, hread, hmade, hformed, hfunction⟩ := hread
  refine (ask_onSuccess _).bind fun entry asked hasked => ?_
  obtain ⟨rfl, hentry⟩ := hasked
  obtain ⟨routine, hroutine, his⟩ := hformed.functions _ entry (found_eq_ok.1 hentry)
  split
  · exact .get reject_onSuccess
  next hentered =>
  -- a function without entry has no blocks
  have hblocks : routine.blocks = [] := by
    have hlabels : entry.labels = [] := by
      by_contra hne
      exact hentered ((hformed.isSome_entry (found_eq_ok.1 hentry)).2 hne)
    have hblocks := his.labels
    rw [hlabels] at hblocks
    exact List.forall₂_nil_left_iff.1 hblocks
  have hprototype : routine.prototype = prototype := by
    rw [Outline.prototype_of_routine hroutine] at hfunction
    exact Option.some.inj hfunction
  have hfollows := h.follows.opened hclosed (List.mem_of_getElem? hroutine) hprototype hblocks
  refine (ask_onSuccess _).bind fun _ asked' hasked => ?_
  obtain ⟨rfl, -⟩ := hasked
  refine (setParams_onSuccess hread hformed header.function header.params).bind
    fun _ after hafter => ?_
  obtain ⟨hkeeps, hformed'⟩ := hafter
  have hfollows' := hfollows.withParams header.function header.params
  refine .pure ⟨prototype, header.params, _, hheader, hformed', hkeeps.read,
    hmade.keeps hread.toAsRead hkeeps, hfollows',
    h.named.withParams hformed.prototypes hfunction (Prototype.length_of_ofHeader? hheader),
    rfl, rfl, hfollows'.prototypes.symm, hfollows'.globals.symm, header.function, rfl, ?_⟩
  rw [hfollows'.prototypes, ← hfollows.prototypes]
  exact hfunction

/-- A global is defined. -/
theorem globalLine_describes : OnSuccess (globalLine position) state fun outcome after =>
    ∃ name literal layout', Literal.ofGlobalLine? state.tokens = some (name, literal) ∧
      Survey.Describes { survey with globals := survey.globals ++ [(name, literal)] } outcome.1
        after.program layout' made := by
  refine (takeWord_onSuccess "global").bind fun keyword behind hbehind => ?_
  obtain ⟨hkeyword, hprogram⟩ := hbehind
  refine (takeKind_onSuccess .global).bind fun name named hnamed => ?_
  obtain ⟨hname, hsame⟩ := hnamed
  refine .get ?_
  split
  · exact .get reject_onSuccess
  have hread : named.program.Read := by
    rw [hsame, hprogram]
    exact h.read
  refine (constant_onSuccess hread).bind fun initial read hconstant => ?_
  obtain ⟨word, type, text, hphrase, hbuilds, hliteral, htype⟩ := hconstant
  refine finish_onSuccess.bind fun _ after hafter => ?_
  obtain ⟨rfl, hend⟩ := hafter
  rw [hsame, hprogram] at hbuilds
  refine (ask_onSuccess _).bind fun _ asked hasked => ?_
  obtain ⟨rfl, -⟩ := hasked
  -- the constant has at most added a type, which no layout shows
  have hbound : OnSuccess (Edit.defineGlobal name.value initial) asked.program fun _ after =>
      asked.program.Keeps after ∧
        after.WellFormed (layout.define name.value initial.literal) := by
    intro _ after hrun
    obtain ⟨hformed, -⟩ := (Edit.defineGlobal_yields (h.formed.grows hbuilds.grows) htype
      (Edit.new_of_defineGlobal hrun)).of_eq_ok hrun
    exact ⟨Edit.read_of_defineGlobal hbuilds.read htype hrun, hformed⟩
  refine (edit_onSuccess hbound).bind fun _ after hafter => ?_
  obtain ⟨-, hkeeps, hformed⟩ := hafter
  refine .pure ⟨name.value, initial.literal, _, ?_, hformed, hkeeps.read, ?_,
    h.follows.define name.value initial.literal, h.named,
    at_of_none hclosed (h.openFunction_eq_none hclosed) _⟩
  · rw [hkeyword, hname, hphrase, hend, Literal.ofGlobalLine?, hliteral]
    rfl
  · exact h.instructions.keeps h.read.toAsRead
      (Keeps.trans ⟨hbuilds.read, hbuilds.grows.toExtends, hbuilds.size⟩ hkeeps)

/-- A line outside of definitions is read. -/
theorem topLine_describes : OnSuccess (topLine position) state fun outcome after =>
    ∃ next layout', survey.readTopLine? state.tokens = some next ∧
      next.Describes outcome.1 after.program layout' made := by
  refine .bind_of_ok (atWord_apply "def" state) ?_
  split
  · next hword =>
    refine (defineLine_describes h hclosed).mono fun outcome after hafter => ?_
    obtain ⟨prototype, names, layout', hheader, hdescribes⟩ := hafter
    refine ⟨_, layout', ?_, hdescribes⟩
    rw [Survey.readTopLine?, Token.startWith, if_pos hword, hheader]
    rfl
  -- the survey asks for the same words in the same order, so each refusal is kept
  next hdef =>
  refine .bind_of_ok (atWord_apply "dec" state) ?_
  split
  · next hword =>
    refine (declareLine_describes h hclosed).mono fun outcome after hafter => ?_
    obtain ⟨prototype, names, layout', hheader, hdescribes⟩ := hafter
    refine ⟨_, layout', ?_, hdescribes⟩
    rw [Survey.readTopLine?, Token.startWith, if_neg hdef, Token.startWith, if_pos hword, hheader]
    rfl
  next hdec =>
  refine .bind_of_ok (atWord_apply "global" state) ?_
  split
  · next hword =>
    refine (globalLine_describes h hclosed).mono fun outcome after hafter => ?_
    obtain ⟨name, literal, layout', hline, hdescribes⟩ := hafter
    refine ⟨_, layout', ?_, hdescribes⟩
    rw [Survey.readTopLine?, Token.startWith, if_neg hdef, Token.startWith, if_neg hdec,
      Token.startWith, if_pos hword, hline]
    rfl
  next hglobal =>
  refine .bind_of_ok (atWord_apply "enddef" state) ?_
  split
  · exact .get reject_onSuccess
  · refine .get (.pure ⟨survey, layout, ?_, h⟩)
    rw [Survey.readTopLine?, Token.startWith, if_neg hdef, Token.startWith, if_neg hdec,
      Token.startWith, if_neg hglobal]

end Outside

/-! ## Lines of definitions -/

section Inside

variable {survey : Survey} {position : Position} {definition : Definition}
  {made : List (InstructionLine × InstructionRef)}
  (h : survey.Describes position state.program layout made)
  (hopen : survey.current = some definition)

include h hopen

/-- A line that holds an instruction is read. -/
theorem instructionLine_describes (line : Nat) (hlabel : Token.labelOf? state.tokens = none) :
    OnSuccess (do append position line (← instructionLine)) state fun outcome after =>
      ∃ layout' ref, Survey.Describes
        { survey with current := some (definition.withLine state.tokens) } outcome.1 after.program
        layout' (made ++
          [({ definition with label := definition.label, tokens := state.tokens }, ref)]) := by
  obtain ⟨hfunction?, hcursor, hdeclared, hglobals, function, hfunction, hprototype⟩ :=
    h.at_of_some hopen
  obtain ⟨-, hbehind⟩ := Definition.lines_withLine_of_none hlabel definition
  refine (instructionLine_onSuccess h.read h.formed.toLaid).bind fun ref read hread => ?_
  obtain ⟨written, hphrase, hmeans⟩ := hread
  rw [← hdeclared] at hmeans
  rw [← hglobals] at hphrase
  -- the instruction is new, so it is free, and appending it creates no further one
  have hmade := h.instructions.adds h.read.toAsRead
    { definition with label := definition.label, tokens := state.tokens } hphrase hmeans
  have hformed := h.formed.grows hmeans.grows
  obtain ⟨operation, hnew⟩ := hmeans.new
  have hfollows := h.follows.passLine hopen hlabel h.formed.prototypes hprototype ref
  refine (ask_onSuccess _).bind fun _ asked hasked => ?_
  obtain ⟨rfl, -⟩ := hasked
  have happended : OnSuccess (position.cursor.append ref) asked.program fun result after =>
      asked.program.Keeps after ∧
        after.WellFormed (layout.modify function (·.append definition.label ref)) := by
    rw [Cursor.append, hfunction, hcursor]
    have hrun : OnSuccess (Edit.append function definition.label ref) asked.program fun _ after =>
        asked.program.Keeps after ∧
          after.WellFormed (layout.modify function (·.append definition.label ref)) := by
      intro _ after hrun
      obtain ⟨entry, hentry, -⟩ := hformed.function_of_prototype hprototype
      obtain ⟨hformed', -⟩ := (Edit.append_yields hformed hentry definition.label hnew.entry
        rfl).of_eq_ok hrun
      exact ⟨Edit.read_of_append hmeans.read hnew.unused hrun, hformed'⟩
    exact hrun.bind fun _ after hafter => .pure hafter
  refine (edit_onSuccess happended).bind fun result after hafter => ?_
  obtain ⟨-, hkeeps, hformed'⟩ := hafter
  split
  · refine .pure ⟨_, ref, hformed', hkeeps.read, hmade.keeps hmeans.read.toAsRead hkeeps, hfollows,
      h.named.append function definition.label ref, hfunction?, ?_, ?_, hglobals, function, hfunction,
      ?_⟩
    · rw [hcursor, hbehind]
    · rw [hfollows.prototypes, ← h.follows.prototypes]
      exact hdeclared
    · rw [hfollows.prototypes, ← h.follows.prototypes]
      exact hprototype
  · exact reject_onSuccess

/-- A line of a definition is read. -/
theorem bodyLine_describes : OnSuccess (bodyLine position) state fun outcome after =>
    ∃ next layout' made', survey.readLine? state.tokens = some next ∧
      next.Describes outcome.1 after.program layout' made' := by
  rw [Survey.readLine?, hopen]
  refine .get (.bind_of_ok (atWord_apply "enddef" state) ?_)
  split
  · next hend =>
    refine (take_onSuccess _).bind fun _ behind hbehind => ?_
    obtain ⟨-, hprogram⟩ := hbehind
    refine finish_onSuccess.bind fun _ after hafter => ?_
    obtain ⟨rfl, -⟩ := hafter
    rw [← hprogram] at h
    exact .pure ⟨survey.closed, layout, made, if_pos hend, h.formed, h.read, h.instructions,
      h.follows.closed, h.named, rfl⟩
  next hend =>
  refine .bind_of_ok (atKind_apply .block state) (.get ?_)
  split
  · next hlabel =>
    refine (take_onSuccess _).bind fun token behind hbehind => ?_
    obtain ⟨htokens, hprogram⟩ := hbehind
    rw [htokens] at hlabel hend ⊢
    simp only [List.head?_cons, Option.any_some, List.length_cons, Bool.and_eq_true, beq_iff_eq,
      Nat.add_eq_right, List.length_eq_zero_iff] at hlabel
    have hname : Token.labelOf? (token :: behind.tokens) = some token.value := by
      rw [hlabel.2, Token.labelOf?, if_pos hlabel.1]
    obtain ⟨-, hbehind⟩ := Definition.lines_withLine_of_label hname definition
    obtain ⟨hfunction?, -, hdeclared, hglobals, hfunction⟩ := h.at_of_some hopen
    rw [← hprogram] at h
    exact .pure ⟨_, layout, made, if_neg hend, h.formed, h.read, h.instructions,
      h.follows.passLabel hopen hname, h.named, hfunction?, hbehind.symm, hdeclared, hglobals,
      hfunction⟩
  · next hlabel => -- a block token alone is what makes a line a label line
    have hnone : Token.labelOf? state.tokens = none := by
      rw [Token.labelOf?.eq_def]
      split
      · next token htokens =>
        rw [htokens] at hlabel
        exact if_neg fun hkind => hlabel (by simp [hkind])
      · rfl
    refine (instructionLine_describes h hopen state.line hnone).mono fun outcome after hafter => ?_
    obtain ⟨layout', ref, hdescribes⟩ := hafter
    exact ⟨_, layout', _, if_neg hend, hdescribes⟩

end Inside

/-- A line is read. -/
theorem sourceLine_describes {survey : Survey} {position : Position}
    {made : List (InstructionLine × InstructionRef)}
    (h : survey.Describes position state.program layout made) :
    OnSuccess (sourceLine position) state fun outcome after => ∃ next layout' made',
      survey.readLine? state.tokens = some next ∧
        next.Describes outcome.1 after.program layout' made' := by
  cases hcurrent : survey.current with
  | none =>
    have hclosed : ¬ position.openFunction.isSome := by simp [h.openFunction_eq_none hcurrent]
    rw [sourceLine, if_neg hclosed, Survey.readLine?, hcurrent]
    refine (topLine_describes h hcurrent).mono fun outcome after hafter => ?_
    obtain ⟨next, layout', hnext, hdescribes⟩ := hafter
    exact ⟨next, layout', made, hnext, hdescribes⟩
  | some definition =>
    rw [sourceLine, if_pos (h.at_of_some hcurrent).1]
    exact bodyLine_describes h hcurrent

end LineReader

/-- What declared functions alone show is laid out as they are. -/
theorem Outline.eq_ofPrototypes {σ τ : Type} {related : σ → τ → Prop} {layout : Outline σ}
    {prototypes : List Prototype} (h : layout.Rel related (.ofPrototypes prototypes)) :
    layout = .ofPrototypes prototypes := by
  obtain ⟨hglobals, hroutines⟩ := h
  have hequal : layout.routines = prototypes.map Routine.declared := by
    rw [← List.forall₂_eq_eq_eq, List.forall₂_map_right_iff]
    refine (List.forall₂_map_right_iff.1 hroutines).imp fun routine prototype hrel => ?_
    obtain ⟨hprototype, hparams, hblocks⟩ := hrel
    rw [Routine.declared, List.forall₂_nil_right_iff] at hblocks
    cases routine
    simp_all [Routine.declared]
  cases layout
  simp_all [Outline.ofPrototypes]

/-! ## Whole sources -/

namespace Survey

/-- A survey describes where the reading of a source stands. -/
def DescribesReader (survey : Survey) (reader : Reader) : Prop :=
  ∃ layout made, survey.Describes reader.position reader.program layout made

/-- Before the first line there are the builtin functions and nothing else. -/
theorem describes_initial : DescribesReader {} {} := by
  have hvalues : Program.initial.values.size = 0 := by decide +kernel
  have hinstructions : Program.initial.instructions.size = 0 := by decide +kernel
  have hread : Program.initial.Read := by
    refine ⟨⟨fun ref value hvalue => ?_, fun ref entry hentry => ?_⟩, .initial⟩
    · exact absurd (Arena.lt_size_of_get? hvalue) (by omega)
    · exact absurd (Arena.lt_size_of_get? hentry) (by omega)
  obtain ⟨layout, hshows⟩ := Program.shownBy_initial
  obtain rfl := Outline.eq_ofPrototypes hshows.statements
  have hprogram : ({} : Reader).program = Program.initial := by with_reducible rfl
  refine ⟨.ofPrototypes builtinPrototypes, [], ?_⟩
  rw [hprogram]
  refine ⟨hshows.toWellFormed, hread, ⟨?_, ?_⟩, ⟨Outline.prototypes_ofPrototypes _, rfl, rfl, ?_,
    ⟨?_, .nil⟩⟩, .ofPrototypes, rfl⟩
  · exact fun item hmem => absurd hmem List.not_mem_nil
  · rw [Arena.refs, hinstructions]
    rfl
  · intro routine hmem
    obtain ⟨prototype, -, rfl⟩ := List.mem_map.1 hmem
    rfl
  · exact fun definition hmem => absurd hmem List.not_mem_nil

/-- A physical line keeps up what holds between lines, if it is accepted. -/
theorem DescribesReader.readLine {survey : Survey} {reader next : Reader} {line : SourceLine}
    {record : Option LogRecord} (h : survey.DescribesReader reader)
    (hrun : reader.readLine line = .ok (next, record)) :
    next.line = reader.line + 1 ∧ ∃ further,
      survey.readSourceLine? (reader.line + 1) line = some further ∧
        further.DescribesReader next := by
  obtain ⟨layout, made, h⟩ := h
  cases line with
  | undecodable => cases hrun
  | text characters =>
    rw [Reader.readLine] at hrun
    dsimp only at hrun
    cases htokens : Token.ofLine (reader.line + 1) characters with
    | error error =>
      rw [htokens] at hrun
      cases hrun
    | ok tokens =>
      rw [readSourceLine?, htokens]
      rw [htokens] at hrun
      cases tokens with
      | nil => -- a line without tokens is passed over
        obtain ⟨rfl, -⟩ := Prod.mk.inj (Except.ok.inj hrun)
        exact ⟨rfl, survey, rfl, layout, made, h⟩
      | cons token tokens =>
        dsimp only at hrun
        rw [Reader.readTokens, StateT.run] at hrun
        cases hline : LineReader.sourceLine reader.position
            ⟨reader.line + 1, token :: tokens, reader.program⟩ with
        | error failure =>
          rw [hline] at hrun
          cases hrun
        | ok result =>
          obtain ⟨outcome, after⟩ := result
          rw [hline] at hrun
          obtain ⟨rfl, -⟩ := Prod.mk.inj (Except.ok.inj hrun)
          obtain ⟨further, layout', made', hfurther, hdescribes⟩ :=
            LineReader.sourceLine_describes h outcome after hline
          exact ⟨rfl, further, hfurther, layout', made', hdescribes⟩

/-- The rest of a source keeps up what holds between lines, if it is accepted. -/
theorem DescribesReader.ofLines {survey : Survey} {reader : Reader} (h : survey.DescribesReader reader)
    {source : Source} {program : Program}
    (hrun : (Reading.ofLines reader source).result = .ok program) :
    ∃ further position layout made, survey.readLines? reader.line source = some further ∧
      position.openFunction = none ∧ further.Describes position program layout made := by
  -- line by line, the survey of what has been read describes the reader
  induction source generalizing reader survey with
  | nil =>
    rw [Reading.ofLines, Reader.close] at hrun
    split at hrun
    · next hposition =>
      obtain rfl := Except.ok.inj hrun
      obtain ⟨layout, made, h⟩ := h
      exact ⟨survey, reader.position, layout, made, rfl, hposition, h⟩
    · cases hrun
  | cons line rest ih =>
    rw [Reading.ofLines] at hrun
    cases hline : reader.readLine line with
    | error failure =>
      rw [hline] at hrun
      cases hrun
    | ok result =>
      obtain ⟨next, record⟩ := result
      rw [hline] at hrun
      obtain ⟨hnumber, between, hbetween, hnext⟩ := h.readLine hline
      obtain ⟨further, position, layout, made, hfurther, hposition, hdescribes⟩ := ih hnext hrun
      refine ⟨further, position, layout, made, ?_, hposition, hdescribes⟩
      rw [readLines?, hbetween, Option.bind_some, ← hnumber, hfurther]

end Survey

namespace Reading

/-- **Accepted sources are described**: an accepted source can be surveyed, and builds what the
survey says. -/
theorem exists_survey_of_ok {source : Source} {program : Program}
    (h : (ofSource source).result = .ok program) : ∃ survey position layout made,
      Survey.ofSource? source = some survey ∧ survey.Describes position program layout made := by
  obtain ⟨survey, position, layout, made, hsurvey, hposition, hdescribes⟩ :=
    Survey.describes_initial.ofLines h
  refine ⟨survey, position, layout, made, ?_, hdescribes⟩
  have hclosed : survey.current = none := by
    -- a definition that has not ended would have left its function open
    rw [Option.eq_none_iff_forall_ne_some]
    intro definition hcurrent
    obtain ⟨hopen, -⟩ := hdescribes.at_of_some hcurrent
    rw [hposition] at hopen
    exact absurd hopen Bool.false_ne_true
  have hlines : Survey.readLines? {} 0 source = some survey := hsurvey
  rw [Survey.ofSource?, hlines, Option.filter_some, hclosed]
  rfl

end Reading

end ChainIR
