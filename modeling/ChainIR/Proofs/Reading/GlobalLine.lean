import Mathlib
import ChainIR.Proofs.Growth
import ChainIR.Proofs.Reading.Derivation
import ChainIR.Proofs.Reading.Mirror
import ChainIR.Proofs.Types.Suffixes

/-! # Lines that define globals

A global is a number or a string, and the types of both stand at their places in the initial program
and so in every program. A line that defines a global therefore creates no type: all that it reads
of the program are the names of the globals, and all that it changes are the globals
(`LineReader.globalLine_onSuccess`, `LineReader.globalLine_of_tree`). -/

namespace ChainIR

open Program

/-! ## Types of literals -/

namespace Literal

/-- The place of the type of a literal, which stands there in the initial program. -/
def builtinType : Literal → TypeRef
  | num _ => ⟨1⟩
  | str _ => ⟨2⟩

/-- The literal as a constant. -/
def constant (literal : Literal) : Constant := ⟨literal.builtinType, literal⟩

/-- The name of the type of a literal has no array suffix. -/
theorem not_mem_typeName : ∀ literal : Literal, '[' ∉ literal.typeName.toList
  | num _ => show '[' ∉ "num".toList by decide
  | str _ => show '[' ∉ "str".toList by decide

end Literal

/-- The types of literals stand at their places in every program. -/
theorem Program.Reachable.typeName_builtinType {program : Program} (h : program.Reachable)
    (literal : Literal) : program.typeName literal.builtinType = .ok literal.typeName := by
  have hinitial : Program.initial.typeName literal.builtinType = .ok literal.typeName := by
    cases literal with
    | num value =>
      show Program.initial.typeName ⟨1⟩ = .ok "num"
      decide +kernel
    | str text =>
      show Program.initial.typeName ⟨2⟩ = .ok "str"
      decide +kernel
  obtain ⟨requests, hrun⟩ := h.requested
  exact ((becomes_of_runAll hrun).onlyGrows .initial).toExtends.typeName hinitial

/-! ## Lines as trees -/

/-- The globals with one more. -/
def Scope.define (scope : Scope) (name : String) (initial : Constant) : Scope where
  globals := (scope.globals.allocWith fun self => { self, name, initial }).2
  names := scope.names.insert name scope.globals.nextRef

/-- With one more global under a free name, the others are found as before. -/
theorem Scope.within_define {scope : Scope} {name : String} (hfree : scope.names.find? name = none)
    (initial : Constant) : scope.Within (scope.define name initial) where
  globals _ _ hentry := Arena.get?_alloc_of_some hentry _
  names other ref hother := by
    have hne : other ≠ name := by
      rintro rfl
      exact absurd (hfree.symm.trans hother) (by simp)
    rw [define, NameTable.find?_insert, if_neg hne]
    exact hother

/-- The tokens of a line that defines a global. -/
structure GlobalTree where
  keyword : Token.Keyword "global"
  name : Token.OfKind .global
  mark : Token.Keyword "const"
  type : Token
  text : Token

namespace GlobalTree

/-- The tokens in their order. -/
def tokens (tree : GlobalTree) : List Token :=
  [tree.keyword.1, tree.name.1, tree.mark.1, tree.type, tree.text]

/-- The name that is bound. -/
def boundName (tree : GlobalTree) : String := tree.name.1.value

/-- The line binds the name to a literal: its type is named as it is, and its text is one of that
type. -/
def Says (tree : GlobalTree) (literal : Literal) : Prop :=
  tree.type.value = literal.typeName ∧
    Constant.ofText literal.builtinType literal.typeName tree.text.value = .ok literal.constant

/-- Alike tokens are those of a line that says the same. -/
theorem exists_alike {tree : GlobalTree} {others : List Token}
    (h : List.Forall₂ Token.Alike tree.tokens others) : ∃ other : GlobalTree,
      others = other.tokens ∧ other.boundName = tree.boundName ∧
        ∀ literal, tree.Says literal → other.Says literal := by
  obtain ⟨keyword, name, mark, type, text⟩ := tree
  obtain _ | ⟨hkeyword, hrest⟩ := h
  obtain _ | ⟨hname, hrest⟩ := hrest
  obtain _ | ⟨hmark, hrest⟩ := hrest
  obtain _ | ⟨htype, hrest⟩ := hrest
  obtain _ | ⟨htext, hrest⟩ := hrest
  obtain _ | _ := hrest
  refine ⟨⟨⟨_, (hkeyword.isWord_eq _).symm.trans keyword.2⟩, ⟨_, hname.kind.symm.trans name.2⟩,
    ⟨_, (hmark.isWord_eq _).symm.trans mark.2⟩, _, _⟩, rfl, hname.value.symm,
    fun literal hmeans => ⟨htype.value.symm.trans hmeans.1, htext.value ▸ hmeans.2⟩⟩

end GlobalTree

/-! ## Reading a line twice -/

namespace LineReader

open Step

/-- A token that is taken as a keyword is the keyword. -/
theorem takeWord_isWord (word : String) {state : LineState} :
    OnSuccess (takeWord word) state fun token after =>
      token.isWord word ∧ state.tokens = token :: after.tokens ∧ after.program = state.program := by
  refine .bind_of_ok (atWord_apply word state) ?_
  split
  · next hword =>
    refine (take_isWord hword _).mono fun token after hafter => ?_
    obtain ⟨keyword, rfl, hrest⟩ := hafter
    exact ⟨keyword.2, hrest⟩
  · exact unexpected_onSuccess

/-- A token that is taken as one of a class is of the class. -/
theorem takeKind_isKind (kind : TokenKind) {state : LineState} :
    OnSuccess (takeKind kind) state fun token after =>
      token.kind = kind ∧ state.tokens = token :: after.tokens ∧ after.program = state.program := by
  refine .bind_of_ok (atKind_apply kind state) ?_
  split
  · next hkind =>
    refine (take_isKind hkind _).mono fun token after hafter => ?_
    obtain ⟨marked, rfl, hrest⟩ := hafter
    exact ⟨marked.2, hrest⟩
  · exact unexpected_onSuccess

/-- A constant starts with its keyword. -/
theorem constant_isWord {state : LineState} :
    OnSuccess constant state fun _ _ => state.tokens.head?.any (·.isWord "const") := by
  refine (takeWord_isWord "const").bind fun token _ htaken => fun _ _ _ => ?_
  obtain ⟨hword, htokens, -⟩ := htaken
  rw [htokens]
  exact hword

/-- A constant that is read creates no type: its type is one of a literal. -/
theorem constant_of_builtinType {state : LineState} (h : state.program.Reachable) :
    OnSuccess constant state fun constant after =>
      ∃ (mark : Token.Keyword "const") (type text : Token) (literal : Literal),
        state.tokens = mark.1 :: type :: text :: after.tokens ∧ after.program = state.program ∧
          constant = literal.constant ∧ type.value = literal.typeName ∧
          Constant.ofText literal.builtinType literal.typeName text.value =
            .ok literal.constant := by
  intro constant after hrun
  have hword := constant_isWord constant after hrun
  obtain ⟨mark, type, text, ref, htokens, htype, hread⟩ :=
    constant_denotes hword constant after hrun
  have hinterned := h.requested.interned
  obtain ⟨name, hname, hparsed⟩ := query_bind_eq_ok.1 hread
  have hparsed := Except.ok.inj hparsed
  obtain ⟨hconstant, rfl⟩ := Constant.type_of_ofText hparsed
  obtain ⟨-, -, hcanonical⟩ := (Edit.typeByName_yields hinterned type.value).of_eq_ok htype
  -- the name is that of a builtin type, which is there before
  have hvalue : type.value = constant.literal.typeName := by
    refine TypeName.eq_of_canonical ?_ (Literal.not_mem_typeName _)
    exact Except.ok.inj ((hcanonical ref rfl).symm.trans hname)
  have hfound := hinterned.typeByName_typeName (h.typeName_builtinType constant.literal)
  rw [hvalue, hfound] at htype
  obtain ⟨hanswer, hprogram⟩ := Prod.mk.inj (Except.ok.inj htype)
  obtain rfl : constant.literal.builtinType = ref := Option.some.inj (Except.ok.inj hanswer)
  have hequal : constant = constant.literal.constant := by
    rw [Literal.constant, ← hconstant]
  exact ⟨mark, type, text, constant.literal, htokens, hprogram.symm, hequal, hvalue,
    hequal ▸ hparsed⟩

/-- A line that defines a global has changed nothing but the globals. -/
theorem globalLine_onSuccess (position : Position) {state : LineState}
    (h : state.program.Reachable) : OnSuccess (globalLine position) state fun outcome after =>
      ∃ (tree : GlobalTree) (literal : Literal), state.tokens = tree.tokens ∧ tree.Says literal ∧
        state.program.globalNamed? tree.boundName = none ∧ outcome.1 = position ∧
        after.program = state.program.withScope
          (state.program.scope.define tree.boundName literal.constant) := by
  refine (takeWord_isWord "global").bind fun keyword behind hbehind => ?_
  obtain ⟨hkeyword, htokens, hprogram⟩ := hbehind
  refine (takeKind_isKind .global).bind fun name named hnamed => .get ?_
  obtain ⟨hname, hnamedTokens, hsame⟩ := hnamed
  split
  · exact .get (.of_error rfl)
  -- taking tokens does not change the program
  rw [← hsame.trans hprogram] at h ⊢
  refine (constant_of_builtinType h).bind fun initial read hread => ?_
  obtain ⟨mark, type, text, literal, hrest, hread, rfl, htype, htext⟩ := hread
  refine finish_onSuccess.bind fun _ ended hended => ?_
  obtain ⟨rfl, hend⟩ := hended
  refine (ask_onSuccess _).bind fun _ asked hasked => ?_
  obtain ⟨rfl, -⟩ := hasked
  have hdefine : OnSuccess (Edit.defineGlobal name.value literal.constant) asked.program
      fun _ program => asked.program.globalNamed? name.value = none ∧
        program = asked.program.withScope
          (asked.program.scope.define name.value literal.constant) := by
    intro ref program hrun
    have hfree := Edit.new_of_defineGlobal hrun
    have hdefined := (Edit.defineGlobal_of_none literal.constant hfree).symm.trans hrun
    exact ⟨hfree, (Prod.mk.inj (Except.ok.inj hdefined)).2.symm⟩
  refine (edit_onSuccess hdefine).bind fun _ after hafter => .pure ?_
  obtain ⟨-, hfree, hafter⟩ := hafter
  rw [hread] at hfree hafter
  refine ⟨⟨⟨keyword, hkeyword⟩, ⟨name, hname⟩, mark, type, text⟩, literal, ?_, ⟨htype, htext⟩,
    hfree, rfl, hafter⟩
  rw [htokens, hnamedTokens, hrest, hend]
  rfl

/-- A line that says to define a global does so, if its name is free. -/
theorem globalLine_of_tree (position : Position) {program : Program} (h : program.Reachable)
    {tree : GlobalTree} {literal : Literal} (hmarks : ∀ token ∈ tree.tokens, token.kind ≠ .eof)
    (hmeans : tree.Says literal) (hfree : program.globalNamed? tree.boundName = none)
    (number : Nat) : ∃ record, globalLine position ⟨number, tree.tokens, program⟩ =
      .ok ((position, record), ⟨number, [], program.withScope
        (program.scope.define tree.boundName literal.constant)⟩) := by
  obtain ⟨keyword, name, mark, type, text⟩ := tree
  simp only [GlobalTree.tokens, List.forall_mem_cons] at hmarks
  obtain ⟨hkeyword, hname, -, htypeKind, htextKind, -⟩ := hmarks
  obtain ⟨htype, htext⟩ := hmeans
  have hinterned := h.requested.interned
  have hbuiltin := h.typeName_builtinType literal
  -- what each step of the line reader answers on these five tokens, in order
  have hword : takeWord "global" ⟨number, [keyword.1, name.1, mark.1, type, text], program⟩ =
      .ok (keyword.1, ⟨number, [name.1, mark.1, type, text], program⟩) :=
    (atWord_of_isWord keyword.2).trans (take_at _ hkeyword)
  have hmarked : takeKind .global ⟨number, [name.1, mark.1, type, text], program⟩ =
      .ok (name.1, ⟨number, [mark.1, type, text], program⟩) :=
    (atKind_of_eq name.2).trans (take_at _ hname)
  have hconstant : LineReader.constant ⟨number, [mark.1, type, text], program⟩ =
      .ok (literal.constant, ⟨number, [], program⟩) := by
    refine constant_of_literal htypeKind htextKind ?_ (query_bind_eq_ok.2 ⟨_, hbuiltin, ?_⟩)
    · exact htype ▸ hinterned.typeByName_typeName hbuiltin
    · exact congrArg Except.ok htext
  have htext : program.constantText literal.constant =
      .ok (spaced ["const", literal.typeName, literal.text]) :=
    query_bind_eq_ok.2 ⟨_, query_bind_eq_ok.2 ⟨_, hbuiltin, rfl⟩, rfl⟩
  have hdefined : edit (Edit.defineGlobal name.1.value literal.constant) ⟨number, [], program⟩ =
      .ok (program.globals.nextRef, ⟨number, [], program.withScope
        (program.scope.define name.1.value literal.constant)⟩) :=
    edit_at (Edit.defineGlobal_of_none literal.constant hfree)
  refine ⟨some ⟨.debug, "global `" ++ name.1.value ++ "` bound to " ++
    spaced ["const", literal.typeName, literal.text]⟩, ?_⟩
  show globalLine position ⟨number, [keyword.1, name.1, mark.1, type, text], program⟩ = _
  rw [globalLine, Step.bind_of_ok hword, Step.bind_of_ok hmarked,
    Step.bind_of_ok (Step.get_apply _),
    show program.globalNamed? name.1.value = none from hfree, if_neg (by simp)]
  refine (Step.bind_of_ok hconstant).trans ((Step.bind_of_ok (finish_of_nil rfl)).trans ?_)
  exact (Step.bind_of_ok (ask_of_ok htext)).trans (Step.bind_of_ok hdefined)

/-- A line that has defined a global defines the same one wherever the globals are the same, at any
position and on any line, and leaves all else as it is there. -/
theorem globalLine_again {position : Position} {state after : LineState} {outcome : LineOutcome}
    (h : state.program.Reachable) (hrun : globalLine position state = .ok (outcome, after)) :
    outcome.1 = position ∧ ∃ wide : Scope, state.program.scope.Within wide ∧
      after.program = state.program.withScope wide ∧
      ∀ (position' : Position) (other : LineState), other.program.Reachable →
        other.program.scope = state.program.scope →
        List.Forall₂ Token.Alike state.tokens other.tokens →
        (∀ token ∈ other.tokens, token.kind ≠ .eof) →
        ∃ record, globalLine position' other =
          .ok ((position', record), ⟨other.line, [], other.program.withScope wide⟩) := by
  obtain ⟨tree, literal, htokens, hmeans, hfree, hposition, hafter⟩ :=
    globalLine_onSuccess position h outcome after hrun
  have hunbound : state.program.scope.names.find? tree.boundName = none := hfree
  refine ⟨hposition, _, Scope.within_define hunbound _, hafter, ?_⟩
  rintro position' ⟨line, tokens, program⟩ hreachable hscope halike hmarks
  obtain ⟨other, rfl, hname, hother⟩ := GlobalTree.exists_alike (htokens ▸ halike)
  rw [← hscope, ← hname]
  refine globalLine_of_tree position' hreachable hmarks (hother literal hmeans) ?_ line
  have hnames : program.globalNames = state.program.globalNames := congrArg Scope.names hscope
  rw [hname, globalNamed?, hnames]
  exact hfree

/-- Outside of functions, a line that starts with its keyword defines a global. -/
theorem sourceLine_of_global {position : Position} (hclosed : position.openFunction = none)
    {state : LineState} (hword : Token.startWith "global" state.tokens) :
    sourceLine position state = globalLine position state := by
  obtain ⟨line, tokens, program⟩ := state
  cases tokens with
  | nil => cases hword
  | cons token rest =>
    let keyword : Token.Keyword "global" := ⟨token, hword⟩
    rw [sourceLine, hclosed]
    show topLine position ⟨line, keyword.1 :: rest, program⟩ = _
    rw [topLine, atWord_of_ne keyword (by decide), atWord_of_ne keyword (by decide),
      atWord_of_isWord keyword.2]

end LineReader

end ChainIR
