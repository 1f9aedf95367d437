import Mathlib
import ChainIR.Proofs.Reading.Written

/-! # Reading written lines

The lines of a program are read as the edits that they stand for: a header declares or opens a
function with the parameters that are written, a label moves the cursor, and a statement is
appended if its call has a callee. -/

namespace ChainIR

/-! ## Headers -/

/-- The words of a header with a given keyword and names for all parameters. -/
def Prototype.headerWords (prototype : Prototype) (keyword : String) (names : List String) :
    List Word :=
  [.bare keyword, .bare prototype.result, .bare prototype.name] ++
    Routine.paramWords prototype.params names ++
    (if prototype.variadic then [.bare "?"] else [])

namespace LineReader

variable {state : LineState} {outline : Outline (Statement Callee)} {line : Nat}

/-- Behind the parameters there is nothing, or the mark of a function with any number of further
arguments. -/
theorem paramsWithin_end {variadic : Bool} {count : Nat} (hcount : state.tokens.length ≤ count)
    (htokens : state.tokens = Word.tokens line (if variadic then [.bare "?"] else [])) :
    Step.Yields (paramsWithin count) state fun result after =>
      state.Passes after ∧ after.tokens = [] ∧ result = ([], variadic) := by
  cases variadic with
  | false =>
    have hend : state.tokens = [] := htokens
    cases count with
    | zero => exact .pure ⟨.refl state, hend, rfl⟩
    | succ count =>
      rw [paramsWithin]
      refine .bind_of_ok (atEnd_apply state) ?_
      rw [hend]
      exact .pure ⟨.refl state, hend, rfl⟩
  | true =>
    -- the mark of a variadic function is the last token
    have hmark : state.tokens = [⟨.operator, "?", line⟩] := htokens
    cases count with
    | zero => exact absurd hcount (by simp [hmark])
    | succ count =>
      rw [paramsWithin]
      refine .bind_of_ok (atEnd_apply state) ?_
      rw [hmark]
      refine .bind_of_ok (atWord_apply _ state) ?_
      rw [hmark]
      refine (take_token (by simp) _ hmark).bind fun _ behind hbehind => ?_
      obtain ⟨-, hpasses, hbehind, -⟩ := hbehind
      refine .bind_of_ok (finish_of_nil hbehind) ?_
      exact .pure ⟨hpasses, hbehind, rfl⟩

/-- Parameters are read with their types and names. -/
theorem paramsWithin_written {types names : List String} {variadic : Bool}
    (hinterned : state.program.Interned) (htypes : ∀ type ∈ types, IsTypeName type)
    (hnames : ∀ name ∈ names, Plain name) (hlength : types.length = names.length) {count : Nat}
    (hcount : state.tokens.length ≤ count)
    (htokens : state.tokens = Word.tokens line
      (Routine.paramWords types names ++ if variadic then [.bare "?"] else [])) :
    Step.Yields (paramsWithin count) state fun result after =>
      state.Passes after ∧ after.tokens = [] ∧ result.2 = variadic ∧
        result.1.map Prod.snd = names ∧
        List.Forall₂ (fun param name => after.program.typeName param.1 = .ok name) result.1
          types := by
  induction types generalizing names state count with
  | nil =>
    obtain rfl : names = [] := List.length_eq_zero_iff.1 hlength.symm
    refine (paramsWithin_end hcount htokens).mono fun result after hafter => ?_
    obtain ⟨hpasses, hend, rfl⟩ := hafter
    exact ⟨hpasses, hend, rfl, rfl, .nil⟩
  | cons type types ih =>
    obtain ⟨name, names, rfl⟩ := List.exists_cons_of_length_eq_add_one hlength.symm
    obtain ⟨htype, hothers⟩ := List.forall_mem_cons.1 htypes
    obtain ⟨hname, hrestNames⟩ := List.forall_mem_cons.1 hnames
    rw [Routine.paramWords, List.cons_append, List.cons_append, Word.tokens_cons,
      Word.tokens_cons] at htokens
    cases count with
    | zero => exact absurd hcount (by simp [htokens])
    | succ count =>
      obtain ⟨kind, -, htoken⟩ := Word.token_plain htype.plain line
      have hmore : state.tokens.isEmpty = false := by
        rw [htokens]
        rfl
      -- no type is spelled like the mark of a function with any number of arguments
      have hword : atWord "?" state = .ok (false, state) := by
        rw [atWord_apply, htokens, htoken]
        simp [Token.isWord, htype.ne_question]
      rw [paramsWithin]
      refine .bind_of_ok (atEnd_apply state) ?_
      rw [hmore]
      refine .bind_of_ok hword ?_
      refine (type_written hinterned htype htokens).bind fun ref typed htyped => ?_
      obtain ⟨hpasses, htyped, htypeName⟩ := htyped
      refine (take_plain hname _ htyped).bind fun token named hnamed => ?_
      obtain ⟨rfl, hpasses', hnamed, hprogram⟩ := hnamed
      have hboth := hpasses.trans hpasses'
      -- a parameter takes two tokens and one of the count, so the count is never short
      have hshorter : named.tokens.length ≤ count := by
        rw [hnamed]
        rw [htokens] at hcount
        simp only [List.length_cons] at hcount
        omega
      refine (ih (hboth.program.interned hinterned) hothers hrestNames (by simpa using hlength) hshorter
        hnamed).bind fun result after hafter => ?_
      obtain ⟨params, flag⟩ := result
      obtain ⟨hrest, hafter, rfl, rfl, htypeNames⟩ := hafter
      exact .pure ⟨hboth.trans hrest, hafter, rfl, rfl,
        .cons ((hpasses'.trans hrest).program.toExtends.typeName htypeName) htypeNames⟩

/-- A header is read. -/
theorem header_written (hshown : state.program.ShownBy outline) {prototype : Prototype}
    (hspelled : prototype.Spelled) {names : List String} (hnames : ∀ name ∈ names, Plain name)
    (hlength : prototype.params.length = names.length) {keyword : String}
    (hkeyword : keyword ∈ Word.keywords)
    (htokens : state.tokens = Word.tokens line (prototype.headerWords keyword names)) :
    Step.Yields header state fun header after =>
      after.program.ShownBy (outline.including prototype) ∧ header.name = prototype.name ∧
        header.params = names ∧ after.program.typeName header.type = .ok prototype.type ∧
        (outline.including prototype).prototypes[header.function.index]? = some prototype := by
  rw [Prototype.headerWords, List.append_assoc, List.cons_append, List.cons_append,
    List.cons_append, List.nil_append, Word.tokens_cons, Word.tokens_cons,
    Word.tokens_cons] at htokens
  rw [header]
  refine (take_keyword hkeyword _ htokens).bind fun _ behind hbehind => ?_
  obtain ⟨hkey, hbehind, hprogram⟩ := hbehind
  refine (type_written (hprogram ▸ hshown.interned) hspelled.result hbehind).bind
    fun result typed htyped => ?_
  obtain ⟨htype, htyped, hresult⟩ := htyped
  refine (take_plain hspelled.name _ htyped).bind fun name named hnamed => ?_
  obtain ⟨hvalue, hname, hnamed, -⟩ := hnamed
  have hpasses := hkey.trans (htype.trans hname)
  -- the number of parameters is bounded by the tokens that are left
  refine Step.Yields.bind (.get (paramsWithin_written (hpasses.program.interned hshown.interned)
    hspelled.params hnames hlength le_rfl hnamed)) fun params read hread => ?_
  obtain ⟨params, variadic⟩ := params
  obtain ⟨hparams, -, rfl, rfl, htypes⟩ := hread
  have hread := hpasses.trans hparams
  rw [hvalue]
  refine (headerOf_yields (hshown.grows hread.program) prototype
    ((hname.trans hparams).program.toExtends.typeName hresult) htypes).mono
      fun header after hafter => ?_
  exact hafter.2

/-- There is one function of a prototype. -/
theorem function_unique (hshown : state.program.ShownBy outline) {prototype : Prototype}
    {function : FunctionRef} {index : Nat}
    (hfunction : outline.prototypes[function.index]? = some prototype)
    (hindex : outline.prototypes[index]? = some prototype) : function = ⟨index⟩ := by
  exact Ref.eq_of_index (Outline.index_unique hshown.prototypes_nodup hfunction hindex)

/-! ## Lines outside of functions -/

section Header

variable (hshown : state.program.ShownBy outline) {prototype : Prototype}
  (hspelled : prototype.Spelled) {names : List String} (hnames : ∀ name ∈ names, Plain name)
  (hlength : prototype.params.length = names.length) {index : Nat}
  (hroutine : (outline.including prototype).routines[index]? = some (.declared prototype))

include hshown hspelled hnames hlength hroutine

/-- A declaration is read. -/
theorem topLine_dec (position : Position)
    (htokens : state.tokens = Word.tokens line (prototype.headerWords "dec" names)) :
    Step.Yields (topLine position) state fun outcome after => outcome.1 = position ∧
      after.program.ShownBy
        ((outline.including prototype).modify ⟨index⟩ (·.withParams names)) := by
  have hfirst : state.tokens = (Word.bare "dec").token line :: _ := htokens
  rw [topLine]
  refine .bind_of_ok (atWord_keyword (by decide) _ hfirst)
    (.bind_of_ok (atWord_keyword (by decide) _ hfirst) ?_)
  refine (header_written hshown hspelled hnames hlength (by decide) htokens).bind
    fun header read hread => ?_
  obtain ⟨hincluded, -, rfl, htype, hprototype⟩ := hread
  have hindex := Outline.prototype_of_routine hroutine
  have hfunction := function_unique hincluded hprototype hindex
  rw [← hfunction]
  have hdeclared : (outline.including prototype).routines[header.function.index]? =
      some (.declared prototype) := by rw [hfunction, hroutine]
  refine (declare_yields hincluded position htype hdeclared).mono fun outcome after hafter => ?_
  exact hafter.2

/-- The head of a definition is read. -/
theorem topLine_def (position : Position)
    (htokens : state.tokens = Word.tokens line (prototype.headerWords "def" names)) :
    Step.Yields (topLine position) state fun outcome after =>
      outcome.1 = ⟨⟨some ⟨index⟩, ""⟩, some prototype.name⟩ ∧ after.program.ShownBy
        ((outline.including prototype).modify ⟨index⟩ (·.withParams names)) := by
  have hfirst : state.tokens = (Word.bare "def").token line :: _ := htokens
  rw [topLine]
  refine .bind_of_ok (atWord_keyword (by decide) _ hfirst) ?_
  refine (header_written hshown hspelled hnames hlength (by decide) htokens).bind
    fun header read hread => ?_
  obtain ⟨hincluded, hname, rfl, htype, hprototype⟩ := hread
  have hindex := Outline.prototype_of_routine hroutine
  have hfunction := function_unique hincluded hprototype hindex
  rw [← hfunction, ← hname]
  have hdeclared : (outline.including prototype).routines[header.function.index]? =
      some (.declared prototype) := by rw [hfunction, hroutine]
  refine (define_yields hincluded htype hdeclared rfl).mono fun outcome after hafter => ?_
  exact hafter.2

end Header

/-- A global is read. -/
theorem topLine_global (hshown : state.program.ShownBy outline) (position : Position)
    {name : String} {literal : Literal} (hnew : name ∉ outline.globals.map Prod.fst)
    (htokens : state.tokens = Word.tokens line (Outline.globalLine name literal).words) :
    Step.Yields (topLine position) state fun outcome after =>
      outcome.1 = position ∧ after.program.ShownBy (outline.define name literal) := by
  rw [Outline.globalLine, Word.tokens_cons, Word.tokens_cons, Word.token_global] at htokens
  rw [topLine]
  -- the words of the other two directives are refused
  refine .bind_of_ok (atWord_keyword (by decide) _ htokens)
    (.bind_of_ok (atWord_keyword (by decide) _ htokens)
      (.bind_of_ok (atWord_keyword (by decide) _ htokens) ?_))
  rw [globalLine, takeWord]
  simp only [bind_assoc]
  refine .bind_of_ok (atWord_keyword (by decide) _ htokens) ?_
  refine (take_keyword (by decide) _ htokens).bind fun _ behind hbehind => ?_
  obtain ⟨hkeyword, hbehind, -⟩ := hbehind
  rw [takeKind]
  simp only [bind_assoc]
  refine .bind_of_ok (atKind_token _ hbehind) ?_
  refine (take_token (by simp) _ hbehind).bind fun _ named hnamed => ?_
  obtain ⟨rfl, hname, hnamed, -⟩ := hnamed
  have hpasses := hkeyword.trans hname
  have hfree := (hshown.globalNamed?_eq_none name).2 hnew
  rw [← List.append_nil (Word.tokens line literal.words)] at hnamed
  refine .get ?_
  rw [hpasses.program.globalNamed?, hfree]
  refine (constant_written (hpasses.program.interned hshown.interned) literal hnamed).bind
    fun constant read hread => ?_
  obtain ⟨hconstant, hread, rfl, htype⟩ := hread
  have hpasses' := hpasses.trans hconstant
  refine .bind_of_ok (finish_of_nil hread) ?_
  refine (bindGlobal_yields (hshown.grows hpasses'.program) position htype
    (by rw [hpasses'.program.globalNamed?, hfree])).mono fun outcome after hafter => ?_
  exact hafter.2

/-! ## Lines of a function -/

variable {position : Position}

/-- A label moves the cursor. -/
theorem bodyLine_label (name : String)
    (htokens : state.tokens = [(Word.bare ("@" ++ name)).token line]) :
    Step.Yields (bodyLine position) state fun outcome after =>
      outcome.1 = { position with cursor := { position.cursor with label := name } } ∧
        after.program = state.program := by
  rw [Word.token_block] at htokens
  rw [bodyLine]
  refine .get (.bind_of_ok (atWord_marked _ htokens (by decide)) ?_)
  refine .bind_of_ok (atKind_token _ htokens) (.get ?_)
  rw [htokens]
  refine (take_token (by simp) _ htokens).bind fun label after hafter => ?_
  obtain ⟨rfl, -, -, hprogram⟩ := hafter
  exact .pure ⟨rfl, hprogram⟩

/-- The end of a function is read. -/
theorem bodyLine_enddef (htokens : state.tokens = [(Word.bare "enddef").token line]) :
    Step.Yields (bodyLine position) state fun outcome after =>
      outcome.1 = { position with openFunction := none } ∧ after.program = state.program := by
  rw [bodyLine]
  refine .get (.bind_of_ok (atWord_keyword (by decide) _ htokens) ?_)
  refine (take_keyword (by decide) _ htokens).bind fun _ behind hbehind => ?_
  obtain ⟨-, hbehind, hprogram⟩ := hbehind
  exact .bind_of_ok (finish_of_nil hbehind) (.pure ⟨rfl, hprogram⟩)

/-- A statement does not look like a label or the end of a function. -/
theorem statement_first (written : Statement String)
    (htokens : state.tokens = Word.tokens line written.words) :
    atWord "enddef" state = .ok (false, state) ∧ atKind .block state = .ok (false, state) := by
  have hkeyword : ∀ {word rest}, word ∈ Word.keywords → (word == "enddef") = false →
      state.tokens = (Word.bare word).token line :: rest →
      atWord "enddef" state = .ok (false, state) ∧ atKind .block state = .ok (false, state) :=
    fun hword hother hrest =>
      ⟨hother ▸ atWord_keyword hword _ hrest, atKind_keyword hword _ hrest⟩
  have hregister : ∀ {name rest}, state.tokens = (Word.bare ("%" ++ name)).token line :: rest →
      atWord "enddef" state = .ok (false, state) ∧ atKind .block state = .ok (false, state) := by
    intro name rest hrest
    rw [Word.token_register] at hrest
    exact ⟨atWord_marked _ hrest (by decide), atKind_token _ hrest⟩
  cases written with
  | produce producer =>
    obtain ⟨word, hword, rest, hrest⟩ := exists_keyword producer htokens
    fin_cases hword <;> exact hkeyword (by decide) (by decide) hrest
  | assign name producer => exact hregister htokens
  | set name operand => exact hregister htokens
  | ret operand => cases operand <;> exact hkeyword (by decide) (by decide) htokens
  | store pointer operand => exact hkeyword (by decide) (by decide) htokens
  | jump name => exact hkeyword (by decide) (by decide) htokens
  | branch condition whenTrue whenFalse => exact hkeyword (by decide) (by decide) htokens

/-- A statement is appended at the cursor if its call has a callee. -/
theorem bodyLine_statement (hshown : state.program.ShownBy outline) {function : FunctionRef}
    (hcursor : position.cursor.function = some function)
    (hfunction : function.index < outline.routines.length) {written : Statement String}
    (hspelled : written.Spelled IsTarget) (hcallee : ∀ call ∈ written.call?, Plain call.1)
    (hknown : written.Known outline.globals)
    (htokens : state.tokens = Word.tokens line written.words) :
    Step.Decides (bodyLine position) state (written.resolve outline.prototypes)
      fun statement outcome after => outcome.1 = position ∧ after.program.ShownBy
        (outline.modify function (·.append position.cursor.label statement)) := by
  obtain ⟨hword, hkind⟩ := statement_first written htokens
  rw [bodyLine]
  -- a statement starts with neither the end of a definition nor a label
  refine .bind_of_ok (Step.get_apply state) (.bind_of_ok hword (.bind_of_ok hkind
    (.bind_of_ok (Step.get_apply state) ?_)))
  have hread := instruction_written hshown hspelled hcallee hknown htokens
  have hline : Step.Decides instructionLine state (written.resolve outline.prototypes)
      fun statement ref after => state.Passes after ∧
        after.program.Holds outline.prototypes ref statement := by
    rw [instructionLine]
    refine hread.bind fun statement ref after _ hafter => ?_
    obtain ⟨hpasses, hafter, hholds⟩ := hafter
    exact .bind_of_ok (finish_of_nil hafter) (.pure ⟨hpasses, hholds⟩)
  refine hline.bind fun statement ref after _ hafter => ?_
  obtain ⟨hpasses, hholds⟩ := hafter
  refine (append_yields (hshown.grows hpasses.program) state.line hcursor hfunction hholds).mono
    fun outcome after hafter => ?_
  exact hafter.2

end LineReader

end ChainIR
