import Mathlib
import ChainIR.Proofs.Outline.Reread
import ChainIR.Proofs.Reading.Again
import ChainIR.Proofs.Reading.Invariant

/-! # Reading written texts

The text of an outline is read line by line: first its globals, then function by function its
headers, labels and statements. It is accepted exactly if every call has a callee among the
functions that are declared by then, and the program is the outline that is read back
(`Reading.ofText_decides`). -/

namespace ChainIR

/-! ## Lines of a text -/

/-- A line as it stands in a source. -/
def TextLine.source (line : TextLine) : SourceLine := .text line.text.toList

/-- No line is longer than one line. -/
theorem TextLine.Valid.not_mem_text {line : TextLine} (h : line.Valid) :
    '\n' ∉ line.text.toList := by
  intro hmem
  rw [TextLine.text, String.toList_append] at hmem
  rcases List.mem_append.1 hmem with hmem | hmem
  · revert hmem
    cases line.indented <;> decide
  · exact (not_blank_of_mem_spaced h.words hmem).2.1 rfl

/-- A text of lines is read as these lines. -/
theorem Source.ofText_join {lines : List String} (h : ∀ line ∈ lines, '\n' ∉ line.toList) :
    ofText (String.join (lines.map (· ++ "\n"))) = lines.map fun line => .text line.toList := by
  induction lines with
  | nil => rfl
  | cons line lines ih =>
    obtain ⟨hline, hlines⟩ := List.forall_mem_cons.1 h
    have htext : (String.join ((line :: lines).map (· ++ "\n"))).toList =
        line.toList ++ '\n' :: (String.join (lines.map (· ++ "\n"))).toList := by
      simp
    rw [ofText, htext, terminated_append_cons hline, List.map_cons, List.map_cons, ← ih hlines]
    rfl

/-- So is a text of valid lines. -/
theorem Source.ofText_lines {lines : List TextLine} (h : ∀ line ∈ lines, line.Valid) :
    ofText (String.join (lines.map fun line => line.text ++ "\n")) =
      lines.map TextLine.source := by
  have hlines : ∀ line ∈ lines.map TextLine.text, '\n' ∉ line.toList := by
    intro text hmem
    obtain ⟨line, hline, rfl⟩ := List.mem_map.1 hmem
    exact (h line hline).not_mem_text
  have hjoin := ofText_join hlines
  rwa [List.map_map, List.map_map] at hjoin

/-! ## Outlines that can be read -/

/-- A statement that can be read where there are globals. Jump targets stand without a mark, so
what they may be is a parameter: `IsTarget` if they have to be taken for targets, `Plain` if they
only have to be told from other words. -/
structure Statement.Readable (target : String → Prop) (globals : List (String × Literal))
    (statement : Statement String) : Prop where
  /-- Its words are read back one by one. -/
  spelled : statement.Spelled target
  /-- So is the name of its callee. -/
  callee : ∀ call ∈ statement.call?, Plain call.1
  /-- There are the globals that it names. -/
  known : statement.Known globals

/-- A block that can be read where there are globals. -/
structure Block.Readable (target : String → Prop) (globals : List (String × Literal))
    (block : Block (Statement String)) : Prop where
  /-- The name of the label. -/
  name : Unbroken block.name
  /-- Something stands under the label. -/
  filled : block.statements ≠ []
  /-- The statements. -/
  statements : ∀ statement ∈ block.statements, statement.Readable target globals

/-- A function that can be read where there are globals. -/
structure Routine.Readable (target : String → Prop) (globals : List (String × Literal))
    (routine : Routine (Statement String)) : Prop where
  /-- The name and the types. -/
  prototype : routine.prototype.Spelled
  /-- The names of the parameters. -/
  params : ∀ name ∈ routine.params, Plain name
  /-- No two labels have one name. -/
  labels : routine.labels.Nodup
  /-- The blocks. -/
  blocks : ∀ block ∈ routine.blocks, block.Readable target globals

/-- An outline whose text can be read, up to the callees of its calls. -/
structure Outline.Readable (target : String → Prop) (outline : Outline (Statement String)) :
    Prop where
  /-- The names of the globals. -/
  globals : ∀ binding ∈ outline.globals, Unbroken binding.1
  /-- No two globals have one name. -/
  globalsNodup : (outline.globals.map Prod.fst).Nodup
  /-- The builtin functions stand in front. -/
  builtins : builtinPrototypes <+: outline.prototypes
  /-- No two functions have one prototype. -/
  prototypes : outline.prototypes.Nodup
  /-- The functions. -/
  routines : ∀ routine ∈ outline.routines, routine.Readable target outline.globals

namespace Routine

/-- A function that can be read is spelled so that its words are read back. -/
theorem Readable.spelled {target : String → Prop} {globals : List (String × Literal)}
    {routine : Routine (Statement String)} (h : routine.Readable target globals) :
    routine.Spelled target where
  prototype := h.prototype
  params := h.params
  blocks block hblock := ⟨(h.blocks block hblock).name, fun statement hstatement =>
    ((h.blocks block hblock).statements statement hstatement).spelled⟩

/-- So are the names of its callees. -/
theorem Readable.calleesPlain {target : String → Prop} {globals : List (String × Literal)}
    {routine : Routine (Statement String)} (h : routine.Readable target globals) :
    routine.CalleesPlain :=
  fun block hblock statement hstatement =>
    ((h.blocks block hblock).statements statement hstatement).callee

/-- As many names are completed as there are types. -/
theorem length_completed (index : Nat) (types names : List String) :
    (completed index types names).length = types.length := by
  induction types generalizing index names with
  | nil => rfl
  | cons type types ih => rw [completed, List.length_cons, List.length_cons, ih]

/-- There are as many names as parameters. -/
theorem length_named (routine : Routine (Statement String)) :
    routine.prototype.params.length = routine.named.params.length :=
  (length_completed 0 _ _).symm

/-- All of the names can be read back. -/
theorem Readable.plain_named {target : String → Prop} {globals : List (String × Literal)}
    {routine : Routine (Statement String)} (h : routine.Readable target globals) :
    ∀ name ∈ routine.named.params, Plain name :=
  plain_of_mem_completed h.params 0

end Routine

/-! ## Outlines while they are read -/

namespace Outline

/-- The lines of an outline that can be read are valid. -/
theorem Readable.valid_lines {target : String → Prop} (htarget : ∀ name, target name → Plain name)
    {outline : Outline (Statement String)} (h : outline.Readable target) :
    ∀ line ∈ outline.lines, line.Valid :=
  Spelled.valid_lines htarget
    ⟨h.globals, fun routine hroutine => (h.routines routine hroutine).spelled⟩
    fun routine hroutine => (h.routines routine hroutine).calleesPlain

/-- The outline while it is read back: the functions that have been read, and the builtin functions
that are still to come. -/
def begun (globals : List (String × Literal)) (done : List (Routine (Statement Callee))) :
    Outline (Statement Callee) :=
  ⟨globals, done ++ (builtinPrototypes.drop done.length).map Routine.declared⟩

/-- At first all of the builtin functions are to come. -/
theorem begun_nil (globals : List (String × Literal)) :
    begun globals [] = { ofPrototypes builtinPrototypes with
      globals := (ofPrototypes builtinPrototypes : Outline (Statement Callee)).globals ++ globals } :=
  rfl

/-- Behind the builtin functions nothing is to come. -/
theorem begun_of_length_le (globals : List (String × Literal))
    {done : List (Routine (Statement Callee))} (h : builtinPrototypes.length ≤ done.length) :
    begun globals done = ⟨globals, done⟩ := by
  rw [begun, List.drop_eq_nil_of_le h, List.map_nil, List.append_nil]

/-- The functions that have been written stand in place of the first prototypes. -/
theorem prototypes_begun (globals : List (String × Literal))
    (done : List (Routine (Statement Callee))) :
    (begun globals done).prototypes =
      done.map Routine.prototype ++ builtinPrototypes.drop done.length := by
  simp [prototypes, begun, Function.comp_def, Routine.declared]

/-- The header of a builtin function that is still to come changes nothing: the function stands right
behind those that have been read. -/
theorem begun_including_of_lt (globals : List (String × Literal))
    {done : List (Routine (Statement Callee))} {prototype : Prototype}
    (hlt : done.length < builtinPrototypes.length)
    (hbuiltin : builtinPrototypes[done.length] = prototype) :
    (begun globals done).including prototype =
      ⟨globals, done ++ .declared prototype ::
        (builtinPrototypes.drop (done.length + 1)).map Routine.declared⟩ := by
  have hdrop : builtinPrototypes.drop done.length =
      prototype :: builtinPrototypes.drop (done.length + 1) := by
    rw [List.drop_eq_getElem_cons hlt, hbuiltin]
  rw [including, if_pos]
  · rw [begun, hdrop, List.map_cons]
  · rw [prototypes_begun, hdrop]
    simp

/-- The header of any other function declares it behind those that have been read. -/
theorem begun_including_of_le (globals : List (String × Literal))
    {done : List (Routine (Statement Callee))} {prototype : Prototype}
    (hle : builtinPrototypes.length ≤ done.length)
    (hnew : prototype ∉ done.map Routine.prototype) :
    (begun globals done).including prototype = ⟨globals, done ++ [.declared prototype]⟩ := by
  rw [including, begun_of_length_le globals hle]
  exact if_neg hnew

/-- Replacing the function behind those that have been read. -/
theorem modify_behind (globals : List (String × Literal)) (done : List (Routine (Statement Callee)))
    (next resolved : Routine (Statement Callee)) (rest : List (Routine (Statement Callee))) :
    (⟨globals, done ++ next :: rest⟩ : Outline (Statement Callee)).modify ⟨done.length⟩
      (fun _ => resolved) = ⟨globals, done ++ resolved :: rest⟩ := by
  rw [modify, ← List.set_eq_modify, List.set_append_right _ _ le_rfl, Nat.sub_self,
    List.set_cons_zero]

/-- The header of the next function: the functions that are known from then on, the place of the
function, and what replacing it there comes to. -/
theorem begun_including (globals : List (String × Literal))
    {done : List (Routine (Statement Callee))} {routine : Routine (Statement String)}
    {routines : List (Routine (Statement String))} {prototypes : List Prototype}
    (hprototypes : done.map Routine.prototype ++ (routine :: routines).map Routine.prototype =
      prototypes)
    (hbuiltins : builtinPrototypes <+: prototypes) (hnodup : prototypes.Nodup) :
    ((begun globals done).including routine.prototype).prototypes =
        prototypes.take (visible done.length) ∧
      ((begun globals done).including routine.prototype).routines[done.length]? =
        some (.declared routine.prototype) ∧
      ∀ resolved, ((begun globals done).including routine.prototype).modify ⟨done.length⟩
        (fun _ => resolved) = begun globals (done ++ [resolved]) := by
  have hlength : (done.map Routine.prototype).length = done.length := List.length_map _
  have hat : prototypes[done.length]? = some routine.prototype := by
    rw [← hprototypes, List.getElem?_append_right (by rw [hlength]), hlength, Nat.sub_self]
    rfl
  have hdone : prototypes.take done.length = done.map Routine.prototype := by
    rw [← hprototypes, List.take_left' hlength]
  rcases Nat.lt_or_ge done.length builtinPrototypes.length with hlt | hge
  · -- the function is a builtin one, which has been declared
    have hbuiltin : builtinPrototypes[done.length] = routine.prototype :=
      (hbuiltins.getElem hlt).trans (List.getElem?_eq_some_iff.1 hat).2
    have hvisible : visible done.length = builtinPrototypes.length := by
      rw [visible, length_builtinPrototypes]
      exact Nat.max_eq_left (by rw [← length_builtinPrototypes]; omega)
    rw [begun_including_of_lt globals hlt hbuiltin]
    refine ⟨?_, by simp, fun resolved => ?_⟩
    · have hfront : done.map Routine.prototype = builtinPrototypes.take done.length := by
        rw [← hdone, List.prefix_iff_eq_take.1 hbuiltins, List.take_take, Nat.min_eq_left hlt.le]
      calc Outline.prototypes _
        _ = done.map Routine.prototype ++
            routine.prototype :: builtinPrototypes.drop (done.length + 1) := by
          simp [Outline.prototypes, Function.comp_def, Routine.declared]
        _ = builtinPrototypes := by
          rw [hfront, ← hbuiltin, ← List.drop_eq_getElem_cons hlt, List.take_append_drop]
        _ = _ := by rw [hvisible, ← List.prefix_iff_eq_take.1 hbuiltins]
    · rw [modify_behind, begun]
      simp
  · -- the function is new
    have hnew : routine.prototype ∉ done.map Routine.prototype := by
      rw [← hprototypes, List.nodup_append] at hnodup
      exact fun hmem => hnodup.2.2 _ hmem _ (by simp) rfl
    have hvisible : visible done.length = done.length + 1 := by
      rw [visible, ← length_builtinPrototypes]
      omega
    rw [begun_including_of_le globals hge hnew]
    refine ⟨?_, by simp, fun resolved => ?_⟩
    · rw [hvisible, List.take_add_one, hat, hdone]
      exact List.map_append
    · rw [modify_behind, begun_of_length_le _ (by simp; omega)]

end Outline

/-! ## Steps along a text -/

/-- Changes that agree on a function. -/
theorem Outline.modify_congr {σ : Type} {outline : Outline σ} {function : FunctionRef}
    {change change' : Routine σ → Routine σ}
    (h : ∀ routine, outline.routines[function.index]? = some routine →
      change routine = change' routine) :
    outline.modify function change = outline.modify function change' := by
  have hroutines : (outline.modify function change).routines =
      (outline.modify function change').routines := by
    refine List.ext_getElem? fun index => ?_
    rw [getElem?_routines_modify, getElem?_routines_modify]
    split
    · next hequal =>
      subst hequal
      exact Option.map_congr fun routine hroutine => h routine hroutine
    · rfl
  exact congrArg (Outline.mk outline.globals) hroutines

namespace Reader

/-- Read a physical line. -/
def step (line : SourceLine) : StateT Reader (Except Failure) Unit := fun reader =>
  (reader.readLine line).map fun next => ((), next.1)

/-- Read lines one after the other. -/
def steps (lines : List TextLine) : StateT Reader (Except Failure) Unit :=
  forM lines fun line => step line.source

@[simp] theorem steps_nil : steps [] = pure () := rfl

/-- Lines are read front to back. -/
theorem steps_append (front back : List TextLine) :
    steps (front ++ back) = steps front >>= fun _ => steps back :=
  List.forM_append

/-- The first line is read first. -/
theorem steps_cons (line : TextLine) (lines : List TextLine) :
    steps (line :: lines) = step line.source >>= fun _ => steps lines :=
  List.forM_cons

/-- Reading one line is one step. -/
theorem steps_singleton (line : TextLine) : steps [line] = step line.source := by
  rw [steps_cons]
  exact bind_pure_unit

/-- Reading stands outside of functions, and an outline shows the program. -/
structure Outside (reader : Reader) (outline : Outline (Statement Callee)) : Prop where
  /-- No function is open. -/
  closed : reader.position.openFunction = none
  /-- The program. -/
  shown : reader.program.ShownBy outline

/-- Reading stands in a function, at one of its labels, and an outline shows the program. -/
structure Inside (reader : Reader) (function : FunctionRef) (label : String)
    (outline : Outline (Statement Callee)) : Prop where
  /-- The place to append to. -/
  cursor : reader.position.cursor = ⟨some function, label⟩
  /-- The function is open. -/
  opened : reader.position.openFunction.isSome
  /-- The program. -/
  shown : reader.program.ShownBy outline

/-- A line is read as its tokens are. -/
theorem step_decides {ρ : Type} {reader : Reader} {line : TextLine} (hvalid : line.Valid)
    {answer? : Option ρ} {post : ρ → LineOutcome → LineState → Prop}
    (h : ∀ state : LineState, state.program = reader.program →
      state.tokens = Word.tokens state.line line.words →
      Step.Decides (LineReader.sourceLine reader.position) state answer? post) :
    Step.Decides (step line.source) reader answer? fun answer _ after =>
      ∃ outcome state, post answer outcome state ∧ after.position = outcome.1 ∧
        after.program = state.program := by
  obtain ⟨word, words, hwords⟩ := List.exists_cons_of_ne_nil hvalid.words_ne_nil
  have hread := h ⟨reader.line + 1, Word.tokens (reader.line + 1) line.words, reader.program⟩ rfl rfl
  -- the tokenizer gives back the words of the line, so the line reader starts on them
  have hline : reader.readLine line.source =
      ({ reader with line := reader.line + 1 } : Reader).readTokens
        (Word.tokens (reader.line + 1) line.words) := by
    rw [TextLine.source, readLine, Token.ofLine_text hvalid.words_ne_nil hvalid.words, hwords]
    rfl
  cases answer? with
  | some answer =>
    obtain ⟨outcome, state, hrun, hpost⟩ := hread
    refine ⟨(), ⟨reader.line + 1, outcome.1, state.program⟩, ?_, outcome, state, hpost, rfl, rfl⟩
    rw [step, hline, readTokens, StateT.run, hrun]
    rfl
  | none =>
    obtain ⟨error, hrun⟩ := hread
    refine ⟨error, ?_⟩
    rw [step, hline, readTokens, StateT.run, hrun]
    rfl

/-- A line is read if its tokens are. -/
theorem step_yields {reader : Reader} {line : TextLine} (hvalid : line.Valid)
    {post : LineOutcome → LineState → Prop}
    (h : ∀ state : LineState, state.program = reader.program →
      state.tokens = Word.tokens state.line line.words →
      Step.Yields (LineReader.sourceLine reader.position) state post) :
    Step.Yields (step line.source) reader fun _ after => ∃ outcome state, post outcome state ∧
      after.position = outcome.1 ∧ after.program = state.program :=
  have hdecides : Step.Decides (step line.source) reader (some ()) fun _ _ after =>
      ∃ outcome state, post outcome state ∧ after.position = outcome.1 ∧
        after.program = state.program := step_decides hvalid h
  hdecides

/-- At first reading stands outside of functions, where there are the builtin functions. -/
theorem outside_initial : Outside {} (.ofPrototypes builtinPrototypes) := by
  have hprogram : ({} : Reader).program = Program.initial := by with_reducible rfl
  refine ⟨rfl, ?_⟩
  rw [hprogram]
  exact Program.shownBy_initial

variable {reader : Reader} {outline : Outline (Statement Callee)}

/-- The line of a new global is read. -/
theorem Outside.globalLine (h : reader.Outside outline) {name : String} {literal : Literal}
    (hname : Unbroken name) (hnew : name ∉ outline.globals.map Prod.fst) :
    Step.Yields (step (Outline.globalLine name literal).source) reader fun _ after =>
      after.Outside (outline.define name literal) := by
  have hvalid : (Outline.globalLine name literal).Valid :=
    ⟨by simp [Outline.globalLine], by
      simp only [Outline.globalLine, List.forall_mem_cons]
      exact ⟨Word.valid_bare (by decide), Word.valid_marked hname (by simp),
        literal.valid_words⟩⟩
  have hline : ∀ state : LineState, state.program = reader.program →
      state.tokens = Word.tokens state.line (Outline.globalLine name literal).words →
      Step.Yields (LineReader.sourceLine reader.position) state fun outcome after =>
        outcome.1 = reader.position ∧ after.program.ShownBy (outline.define name literal) := by
    intro state hprogram htokens
    rw [LineReader.sourceLine, h.closed]
    exact LineReader.topLine_global (hprogram ▸ h.shown) reader.position hnew htokens
  refine (step_yields hvalid hline).mono ?_
  rintro _ after ⟨outcome, state, ⟨hposition, hshown⟩, hafter, hprogram⟩
  exact ⟨by rw [hafter, hposition, h.closed], hprogram ▸ hshown⟩

/-- The lines of new globals are read. -/
theorem Outside.globalLines {globals : List (String × Literal)} (h : reader.Outside outline)
    (hnames : ∀ binding ∈ globals, Unbroken binding.1)
    (hnew : ((outline.globals ++ globals).map Prod.fst).Nodup) :
    Step.Yields (steps (globals.map fun binding => Outline.globalLine binding.1 binding.2)) reader
      fun _ after => after.Outside { outline with globals := outline.globals ++ globals } := by
  induction globals generalizing reader outline with
  | nil => exact .pure (by rwa [List.append_nil])
  | cons binding globals ih =>
    obtain ⟨hname, hnames⟩ := List.forall_mem_cons.1 hnames
    rw [List.map_cons, steps_cons]
    have hfresh : binding.1 ∉ outline.globals.map Prod.fst := by
      rw [List.map_append, List.nodup_append] at hnew
      exact fun hmem => hnew.2.2 _ hmem _ (by simp) rfl
    refine (h.globalLine hname hfresh).bind fun _ between hbetween => ?_
    have hrest := ih hbetween hnames (by simpa [Outline.define] using hnew)
    simpa [Outline.define] using hrest

/-! ## Bodies -/

section Body

variable {function : FunctionRef} {label : String}

/-- The line of a label is read. -/
theorem Inside.labelLine (h : reader.Inside function label outline) {name : String}
    (hname : Unbroken name) :
    Step.Yields (step (⟨false, [.bare ("@" ++ name)]⟩ : TextLine).source) reader fun _ after =>
      after.Inside function name outline := by
  have hvalid : (⟨false, [.bare ("@" ++ name)]⟩ : TextLine).Valid :=
    ⟨by simp, by simpa using Word.valid_marked hname (by simp)⟩
  have hline : ∀ state : LineState, state.program = reader.program →
      state.tokens = Word.tokens state.line [.bare ("@" ++ name)] →
      Step.Yields (LineReader.sourceLine reader.position) state fun outcome after =>
        outcome.1 = { reader.position with
          cursor := { reader.position.cursor with label := name } } ∧
        after.program = reader.program := by
    intro state hprogram htokens
    rw [LineReader.sourceLine, if_pos h.opened]
    exact (LineReader.bodyLine_label name htokens).mono fun outcome after hafter =>
      ⟨hafter.1, hafter.2.trans hprogram⟩
  refine (step_yields hvalid hline).mono ?_
  rintro _ after ⟨outcome, state, ⟨hposition, hstate⟩, hafter, hprogram⟩
  refine ⟨?_, ?_, ?_⟩
  · rw [hafter, hposition, h.cursor]
  · rw [hafter, hposition]
    exact h.opened
  · rw [hprogram, hstate]
    exact h.shown

/-- The end of a function is read. -/
theorem Inside.endLine (h : reader.Inside function label outline) :
    Step.Yields (step (⟨false, [.bare "enddef"]⟩ : TextLine).source) reader fun _ after =>
      after.Outside outline := by
  have hvalid : (⟨false, [.bare "enddef"]⟩ : TextLine).Valid :=
    ⟨by simp, by
      rw [List.forall_mem_singleton]
      exact Word.valid_bare (by decide)⟩
  have hline : ∀ state : LineState, state.program = reader.program →
      state.tokens = Word.tokens state.line [.bare "enddef"] →
      Step.Yields (LineReader.sourceLine reader.position) state fun outcome after =>
        outcome.1 = { reader.position with openFunction := none } ∧
        after.program = reader.program := by
    intro state hprogram htokens
    rw [LineReader.sourceLine, if_pos h.opened]
    exact (LineReader.bodyLine_enddef htokens).mono fun outcome after hafter =>
      ⟨hafter.1, hafter.2.trans hprogram⟩
  refine (step_yields hvalid hline).mono ?_
  rintro _ after ⟨outcome, state, ⟨hposition, hstate⟩, hafter, hprogram⟩
  exact ⟨by rw [hafter, hposition], by rw [hprogram, hstate]; exact h.shown⟩

/-- The line of a statement is read, if its call has a callee. -/
theorem Inside.statementLine (h : reader.Inside function label outline)
    (hfunction : function.index < outline.routines.length) {written : Statement String}
    (hspelled : written.Spelled IsTarget) (hcallee : ∀ call ∈ written.call?, Plain call.1)
    (hknown : written.Known outline.globals) :
    Step.Decides (step (⟨true, written.words⟩ : TextLine).source) reader
      (written.resolve outline.prototypes) fun statement _ after =>
        after.Inside function label (outline.modify function (·.append label statement)) := by
  have hvalid : (⟨true, written.words⟩ : TextLine).Valid :=
    ⟨written.words_ne_nil, hspelled.valid (fun _ => IsTarget.plain) hcallee⟩
  have hline : ∀ state : LineState, state.program = reader.program →
      state.tokens = Word.tokens state.line written.words →
      Step.Decides (LineReader.sourceLine reader.position) state
        (written.resolve outline.prototypes) fun statement outcome after =>
          outcome.1 = reader.position ∧
            after.program.ShownBy (outline.modify function (·.append label statement)) := by
    intro state hprogram htokens
    rw [LineReader.sourceLine, if_pos h.opened]
    have hcursor : reader.position.cursor.function = some function := by rw [h.cursor]
    have hbody := LineReader.bodyLine_statement (hprogram ▸ h.shown) hcursor hfunction hspelled
      hcallee hknown htokens
    rwa [h.cursor] at hbody
  refine (step_decides hvalid hline).mono ?_
  rintro statement _ after - ⟨outcome, state, ⟨hposition, hstate⟩, hafter, hprogram⟩
  exact ⟨by rw [hafter, hposition, h.cursor], by rw [hafter, hposition]; exact h.opened,
    hprogram ▸ hstate⟩

/-- The lines of statements are read, if their calls have callees. -/
theorem Inside.statementLines (h : reader.Inside function label outline)
    (hfunction : function.index < outline.routines.length) {statements : List (Statement String)}
    (hreadable : ∀ statement ∈ statements, statement.Readable IsTarget outline.globals) :
    Step.Decides (steps (statements.map fun statement => ⟨true, statement.words⟩)) reader
      (statements.mapM (Statement.resolve outline.prototypes)) fun resolved _ after =>
        after.Inside function label (outline.modify function (·.appendAll label resolved)) := by
  induction statements generalizing reader outline with
  | nil =>
    have hsame : outline.modify function (·.appendAll label []) = outline :=
      Outline.modify_eq_self fun _ _ => rfl
    refine Step.Yields.pure ?_
    show reader.Inside function label (outline.modify function (·.appendAll label []))
    rwa [hsame]
  | cons statement statements ih =>
    obtain ⟨hstatement, hreadable⟩ := List.forall_mem_cons.1 hreadable
    rw [List.map_cons, steps_cons, mapM_cons_eq_bind]
    refine Step.Decides.seq
      (h.statementLine hfunction hstatement.spelled hstatement.callee hstatement.known)
      fun resolved _ between _ hbetween => ?_
    -- a statement declares nothing, so the others are resolved by the same prototypes
    have hrest := ih hbetween (by simpa [Outline.modify] using hfunction) hreadable
    rw [Outline.prototypes_modify _ _ fun _ => Routine.prototype_append _ _ _] at hrest
    refine .map (hrest.mono fun others _ after _ hafter => ?_)
    rwa [Outline.modify_modify] at hafter

variable {routine : Routine (Statement Callee)}
  (hroutine : outline.routines[function.index]? = some routine)
include hroutine

/-- The lines of a block are read, if its calls have callees. -/
theorem Inside.blockLines (h : reader.Inside function label outline)
    {block : Block (Statement String)} (hreadable : block.Readable IsTarget outline.globals)
    (hnew : block.name ∉ routine.labels) {isFirst : Bool} (hfirst : isFirst → label = "") :
    Step.Decides (steps (block.lines isFirst)) reader (block.resolve outline.prototypes)
      fun resolved _ after => after.Inside function block.name
        (outline.modify function (·.addBlocks [resolved])) := by
  have hfunction : function.index < outline.routines.length :=
    (List.getElem?_eq_some_iff.1 hroutine).1
  -- only the first block may have no name, and it goes without the line of a label
  have hopening : Step.Yields (steps (if isFirst && block.name.isEmpty then []
      else [(⟨false, [.bare ("@" ++ block.name)]⟩ : TextLine)])) reader fun _ after =>
        after.Inside function block.name outline := by
    split
    · next hempty =>
      obtain ⟨htrue, hname⟩ := Bool.and_eq_true_iff.1 hempty
      obtain rfl := hfirst htrue
      rw [String.isEmpty_iff.1 hname]
      exact .pure h
    · rw [steps_singleton]
      exact h.labelLine hreadable.name
  rw [Block.lines, steps_append, Block.resolve]
  refine .after hopening fun _ between hbetween => .map ?_
  refine (hbetween.statementLines hfunction hreadable.statements).mono
    fun resolved _ after hresolved hafter => ?_
  -- the label is made by its first statement, so there has to be one
  have hne : resolved ≠ [] := by
    rintro rfl
    exact hreadable.filled (List.forall₂_nil_right_iff.1 (forall₂_of_mapM hresolved))
  rwa [Outline.modify_congr fun other hother => ?_] at hafter
  obtain rfl := Option.some.inj (hroutine.symm.trans hother)
  exact Routine.appendAll_eq_addBlocks hnew hne

/-- The lines of blocks are read, if their calls have callees. -/
theorem Inside.bodyLines (h : reader.Inside function label outline)
    {blocks : List (Block (Statement String))}
    (hreadable : ∀ block ∈ blocks, block.Readable IsTarget outline.globals)
    (hnodup : (routine.labels ++ blocks.map Block.name).Nodup) (isFirst : Bool)
    (hfirst : isFirst → label = "") :
    Step.Decides (steps (Routine.bodyLines isFirst blocks)) reader
      (blocks.mapM (Block.resolve outline.prototypes)) fun resolved _ after =>
        ∃ name, after.Inside function name (outline.modify function (·.addBlocks resolved)) := by
  induction blocks generalizing reader outline label isFirst routine with
  | nil =>
    have hsame : outline.modify function (·.addBlocks []) = outline :=
      Outline.modify_eq_self fun _ _ => by simp [Routine.addBlocks]
    refine Step.Yields.pure ⟨label, ?_⟩
    show reader.Inside function label (outline.modify function (·.addBlocks []))
    rwa [hsame]
  | cons block blocks ih =>
    obtain ⟨hblock, hreadable⟩ := List.forall_mem_cons.1 hreadable
    -- the routine has grown by the blocks in front, so its labels are the names of all of them
    have hnew : block.name ∉ routine.labels := fun hmem =>
      (List.nodup_append.1 hnodup).2.2 _ hmem _ (by simp) rfl
    rw [Routine.bodyLines, steps_append, mapM_cons_eq_bind]
    refine Step.Decides.seq
      (h.blockLines hroutine hblock hnew hfirst) fun resolved _ between hresolved hbetween => ?_
    have hname : resolved.name = block.name := by
      obtain ⟨statements, -, rfl⟩ := Option.map_eq_some_iff.1 hresolved
      rfl
    have hroutine' : (outline.modify function (·.addBlocks [resolved])).routines[function.index]? =
        some (routine.addBlocks [resolved]) := by
      rw [Outline.getElem?_routines_modify, if_pos rfl, hroutine, Option.map_some]
    have hprototypes : (outline.modify function (·.addBlocks [resolved])).prototypes =
        outline.prototypes := Outline.prototypes_modify _ _ fun _ => rfl
    have hrest := ih hroutine' hbetween hreadable (by simpa [hname] using hnodup)
      false (by simp)
    rw [hprototypes] at hrest
    refine .map (hrest.mono fun others _ after _ hafter => ?_)
    obtain ⟨name, hafter⟩ := hafter
    refine ⟨name, ?_⟩
    rw [Outline.modify_modify] at hafter
    simpa [Function.comp_def, Routine.addBlocks] using hafter

end Body

/-! ## Functions -/

section Routine

variable (h : reader.Outside outline) {routine : Routine (Statement String)}
  (hreadable : routine.Readable IsTarget outline.globals) {index : Nat}
  (hroutine : (outline.including routine.prototype).routines[index]? =
    some (.declared routine.prototype))
include h hreadable hroutine

/-- The header of a function without blocks is read. -/
theorem Outside.declarationLine (hblocks : routine.blocks.isEmpty) :
    Step.Yields (step (⟨false, routine.headerWords⟩ : TextLine).source) reader fun _ after =>
      after.Outside ((outline.including routine.prototype).modify ⟨index⟩
        (·.withParams routine.named.params)) := by
  have hvalid : (⟨false, routine.headerWords⟩ : TextLine).Valid :=
    ⟨by simp [Routine.headerWords], hreadable.spelled.valid_headerWords⟩
  have hwords : routine.headerWords =
      routine.prototype.headerWords "dec" routine.named.params := by
    rw [Routine.headerWords, if_pos hblocks, Prototype.headerWords]
  have hline : ∀ state : LineState, state.program = reader.program →
      state.tokens = Word.tokens state.line routine.headerWords →
      Step.Yields (LineReader.sourceLine reader.position) state fun outcome after =>
        outcome.1 = reader.position ∧ after.program.ShownBy
          ((outline.including routine.prototype).modify ⟨index⟩
            (·.withParams routine.named.params)) := by
    intro state hprogram htokens
    rw [LineReader.sourceLine, h.closed]
    exact LineReader.topLine_dec (hprogram ▸ h.shown) hreadable.prototype hreadable.plain_named
      routine.length_named hroutine reader.position (htokens.trans (by rw [hwords]))
  refine (step_yields hvalid hline).mono ?_
  rintro _ after ⟨outcome, state, ⟨hposition, hshown⟩, hafter, hprogram⟩
  exact ⟨by rw [hafter, hposition, h.closed], hprogram ▸ hshown⟩

/-- The header of a function with blocks is read. -/
theorem Outside.definitionLine (hblocks : routine.blocks.isEmpty = false) :
    Step.Yields (step (⟨false, routine.headerWords⟩ : TextLine).source) reader fun _ after =>
      after.Inside ⟨index⟩ "" ((outline.including routine.prototype).modify ⟨index⟩
        (·.withParams routine.named.params)) := by
  have hvalid : (⟨false, routine.headerWords⟩ : TextLine).Valid :=
    ⟨by simp [Routine.headerWords], hreadable.spelled.valid_headerWords⟩
  have hwords : routine.headerWords =
      routine.prototype.headerWords "def" routine.named.params := by
    rw [Routine.headerWords, hblocks, if_neg Bool.false_ne_true, Prototype.headerWords]
  have hline : ∀ state : LineState, state.program = reader.program →
      state.tokens = Word.tokens state.line routine.headerWords →
      Step.Yields (LineReader.sourceLine reader.position) state fun outcome after =>
        outcome.1 = ⟨⟨some ⟨index⟩, ""⟩, some routine.prototype.name⟩ ∧ after.program.ShownBy
          ((outline.including routine.prototype).modify ⟨index⟩
            (·.withParams routine.named.params)) := by
    intro state hprogram htokens
    rw [LineReader.sourceLine, h.closed]
    exact LineReader.topLine_def (hprogram ▸ h.shown) hreadable.prototype hreadable.plain_named
      routine.length_named hroutine reader.position (htokens.trans (by rw [hwords]))
  refine (step_yields hvalid hline).mono ?_
  rintro _ after ⟨outcome, state, ⟨hposition, hshown⟩, hafter, hprogram⟩
  exact ⟨by rw [hafter, hposition], by rw [hafter, hposition]; rfl, hprogram ▸ hshown⟩

/-- The lines of a function are read, if its calls have callees. -/
theorem Outside.routineLines : Step.Decides (steps routine.lines) reader
    (routine.resolve (outline.including routine.prototype).prototypes) fun resolved _ after =>
      after.Outside ((outline.including routine.prototype).modify ⟨index⟩ fun _ => resolved) := by
  -- the function that has been declared is the one that the header names
  have hresolved : ∀ blocks, (outline.including routine.prototype).modify ⟨index⟩
      ((·.addBlocks blocks) ∘ (·.withParams routine.named.params)) =
        (outline.including routine.prototype).modify ⟨index⟩
          fun _ => ⟨routine.prototype, routine.named.params, blocks⟩ := fun blocks =>
    Outline.modify_congr fun other hother => by
      obtain rfl := Option.some.inj (hroutine.symm.trans hother)
      rfl
  rw [Routine.lines, Routine.resolve]
  cases hblocks : routine.blocks.isEmpty with
  | true =>
    rw [if_pos rfl, steps_singleton, List.isEmpty_iff.1 hblocks]
    refine Step.Decides.of_yields ((h.declarationLine hreadable hroutine hblocks).mono ?_)
    intro _ after hafter
    have hnone := hresolved []
    simp only [Function.comp_def, Routine.addBlocks, Routine.withParams, List.append_nil] at hnone
    exact hnone ▸ hafter
  | false =>
    rw [if_neg Bool.false_ne_true, steps_cons, steps_append]
    refine .after (h.definitionLine hreadable hroutine hblocks) fun _ between hbetween => ?_
    have hroutine' : ((outline.including routine.prototype).modify ⟨index⟩
        (·.withParams routine.named.params)).routines[(⟨index⟩ : FunctionRef).index]? =
          some ((Routine.declared routine.prototype).withParams routine.named.params) := by
      rw [Outline.getElem?_routines_modify, if_pos rfl]
      exact congrArg (Option.map _) hroutine
    have hglobals : ((outline.including routine.prototype).modify ⟨index⟩
        (·.withParams routine.named.params)).globals = outline.globals := by
      rw [Outline.globals_modify, Outline.including]
      split <;> rfl
    have hlabels : ([] ++ routine.labels).Nodup := by
      rw [List.nil_append]
      exact hreadable.labels
    have hprototypes : ((outline.including routine.prototype).modify ⟨index⟩
        (·.withParams routine.named.params)).prototypes =
          (outline.including routine.prototype).prototypes :=
      Outline.prototypes_modify _ _ fun _ => rfl
    have hbody := hbetween.bodyLines hroutine' (hglobals ▸ hreadable.blocks) hlabels true
      fun _ => rfl
    rw [hprototypes] at hbody
    refine .map (hbody.bind fun blocks _ inside _ hinside => ?_)
    obtain ⟨name, hinside⟩ := hinside
    rw [steps_singleton]
    refine hinside.endLine.mono fun _ after hafter => ?_
    rwa [Outline.modify_modify, hresolved] at hafter

end Routine

/-- The lines of the functions behind those that have been read are read, if their calls have
callees among the functions that are known in each of them. -/
theorem Outside.routinesLines {globals : List (String × Literal)}
    {done : List (Routine (Statement Callee))} {routines : List (Routine (Statement String))}
    (h : reader.Outside (.begun globals done))
    (hreadable : ∀ routine ∈ routines, routine.Readable IsTarget globals)
    {prototypes : List Prototype}
    (hprototypes : done.map Routine.prototype ++ routines.map Routine.prototype = prototypes)
    (hbuiltins : builtinPrototypes <+: prototypes) (hnodup : prototypes.Nodup) :
    Step.Decides (steps (routines.map Routine.lines).flatten) reader
      (Outline.resolveFrom prototypes done.length routines) fun resolved _ after =>
        after.Outside (.begun globals (done ++ resolved)) := by
  induction routines generalizing reader done with
  | nil =>
    refine Step.Yields.pure ?_
    show reader.Outside (.begun globals (done ++ []))
    rwa [List.append_nil]
  | cons routine routines ih =>
    obtain ⟨hroutine, hreadable⟩ := List.forall_mem_cons.1 hreadable
    -- a header declares a function, unless it is the header of a builtin one
    obtain ⟨hknown, hdeclared, hnext⟩ :=
      Outline.begun_including globals hprototypes hbuiltins hnodup
    rw [List.map_cons, List.flatten_cons, steps_append, Outline.resolveFrom, ← hknown]
    refine Step.Decides.seq (h.routineLines hroutine hdeclared)
      fun resolved _ between hresolved hbetween => .map ?_
    have hsame : resolved.prototype = routine.prototype := by
      obtain ⟨blocks, -, rfl⟩ := Option.map_eq_some_iff.1 hresolved
      rfl
    rw [hnext] at hbetween
    have hrest := ih hbetween hreadable (by rw [← hprototypes]; simp [hsame])
    rw [List.length_append, List.length_singleton] at hrest
    refine hrest.mono fun others _ after _ hafter => ?_
    rwa [List.append_assoc, List.singleton_append] at hafter

end Reader

/-! ## Texts -/

namespace Reading

/-- A source of lines is read line by line. -/
theorem result_ofLines_source (lines : List TextLine) (reader : Reader) :
    (ofLines reader (lines.map TextLine.source)).result =
      (Reader.steps lines reader).bind fun read => read.2.close := by
  induction lines generalizing reader with
  | nil => rfl
  | cons line lines ih =>
    rw [List.map_cons, ofLines, Reader.steps_cons]
    cases hline : reader.readLine line.source with
    | error failure =>
      have hstep : Reader.step line.source reader = .error failure := by rw [Reader.step, hline]; rfl
      rw [Step.bind_of_error hstep]
      rfl
    | ok next =>
      have hstep : Reader.step line.source reader = .ok ((), next.1) := by
        rw [Reader.step, hline]
        rfl
      rw [Step.bind_of_ok hstep, ← ih]
      rfl

/-- **Texts of outlines are decided by their calls**: the text of an outline is accepted exactly if
its calls have callees among the functions that are known in the bodies that they stand in, and the
program is the outline that is read back. -/
theorem ofText_decides {outline : Outline (Statement String)} (h : outline.Readable IsTarget) :
    match outline.reread with
    | some resolved => ∃ program, (ofText outline.text).result = .ok program ∧
        program.ShownBy resolved
    | none => ∃ failure, (ofText outline.text).result = .error failure := by
  have hglobals : Step.Yields (Reader.steps (outline.globals.map fun binding =>
      Outline.globalLine binding.1 binding.2)) {} fun _ after =>
        after.Outside (.begun outline.globals []) := by
    have hnodup : (([] ++ outline.globals).map Prod.fst).Nodup := by
      rw [List.nil_append]
      exact h.globalsNodup
    have hread := Reader.outside_initial.globalLines h.globals hnodup
    rwa [← Outline.begun_nil] at hread
  have hread : Step.Decides (Reader.steps outline.lines) {} outline.reread fun resolved _ after =>
      after.Outside resolved := by
    rw [Outline.lines, Reader.steps_append, Outline.reread]
    refine .after hglobals fun _ between hbetween => .map ?_
    refine (hbetween.routinesLines h.routines rfl h.builtins h.prototypes).mono
      fun resolved _ after hresolved hafter => ?_
    -- the text has all builtin functions, so none is left to come behind it
    have hlength : builtinPrototypes.length ≤ resolved.length := by
      rw [← (Outline.forall₂_resolveFrom hresolved).length_eq]
      simpa [Outline.prototypes] using h.builtins.length_le
    rwa [List.nil_append, Outline.begun_of_length_le _ hlength] at hafter
  rw [ofText, ofSource, Outline.text, Source.ofText_lines (h.valid_lines fun _ => IsTarget.plain),
    result_ofLines_source]
  cases hreread : outline.reread with
  | some resolved =>
    rw [hreread] at hread
    obtain ⟨_, after, hrun, hafter⟩ := hread
    refine ⟨after.program, ?_, hafter.shown⟩
    rw [hrun]
    show after.close = _
    rw [Reader.close, hafter.closed]
  | none =>
    rw [hreread] at hread
    obtain ⟨failure, hrun⟩ := hread
    exact ⟨failure, by rw [hrun]; rfl⟩

end Reading

end ChainIR
