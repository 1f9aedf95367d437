import Mathlib
import ChainIR.Proofs.Reading.Described
import ChainIR.Proofs.Reading.Relaid
import ChainIR.Proofs.Types.Suffixes

/-! # Declaring again

A function that a source has declared or defined may be declared again at any later place outside
of functions, with any names of parameters and any spelling of its types: the source is accepted as
before and gives the same program (`Reading.accepts_redeclared`). Behind such a source the function
is *settled* (`Reader.Settled`): all of its types are there, and it has names for all of its
parameters. Every line keeps it settled, and a line that declares it again finds all that it asks
for and changes nothing (`Reader.readLine_settled`). -/

namespace ChainIR

/-- The function that a line is the header of. -/
def SourceLine.prototype? (line : SourceLine) : Option Prototype :=
  (line.tokens?.bind Prototype.ofHeader?).map Prod.fst

namespace Source

/-- Some line of a source, outside of functions, declares a function or opens its definition. -/
def Declares (source : Source) (prototype : Prototype) : Prop :=
  ∃ (front : Source) (header : SourceLine) (back : Source), source = front ++ header :: back ∧
    front.endsInside = false ∧ (header.startsWith "dec" ∨ header.startsWith "def") ∧
    header.prototype? = some prototype

/-- A source has declared or defined a function, or it is a builtin function without parameters. -/
def Settles (source : Source) (prototype : Prototype) : Prop :=
  source.Declares prototype ∨ prototype ∈ builtinPrototypes ∧ prototype.params = []

/-- A function is declared again, in front of any line outside of functions. In a prototype types
have their canonical names, so the declaration may spell them in any way, and may give the
parameters any names. -/
inductive Redeclare : Source → Source → Prop
  | declaration (before after : Source) {line : SourceLine} {prototype : Prototype}
      (outside : before.endsInside = false) (settled : before.Settles prototype)
      (declares : line.startsWith "dec") (header : line.prototype? = some prototype) :
      Redeclare (before ++ after) (before ++ line :: after)

/-- Functions are declared again, any number of times. -/
def Redeclared : Source → Source → Prop := Relation.ReflTransGen Redeclare

end Source

/-! ## Surveys of headers -/

/-- The number of a line does not matter for the names of types. -/
@[simp] theorem Token.typeName_onLine (number : Nat) (token : Token) :
    (token.onLine number).typeName = token.typeName := rfl

/-- The number of a line does not matter for parameters. -/
@[simp] theorem Prototype.paramsOf?_onLine (number : Nat) (tokens : List Token) :
    paramsOf? (tokens.map (Token.onLine number)) = paramsOf? tokens := by
  induction tokens using paramsOf?.induct with
  | case1 => rfl
  | case2 mark hmark => rfl
  | case3 mark hmark => rfl
  | case4 type name rest hmark =>
    rw [List.map_cons, List.map_cons, paramsOf?, paramsOf?, Token.onLine_isWord, if_pos hmark,
      if_pos hmark]
  | case5 type name rest hmark ih =>
    rw [List.map_cons, List.map_cons, paramsOf?, paramsOf?, Token.onLine_isWord, if_neg hmark,
      if_neg hmark, ih, Token.typeName_onLine]
    rfl

/-- The number of a line does not matter for its header. -/
@[simp] theorem Prototype.ofHeader?_onLine (number : Nat) (tokens : List Token) :
    ofHeader? (tokens.map (Token.onLine number)) = ofHeader? tokens := by
  match tokens with
  | [] | [_] | [_, _] => rfl
  | _ :: result :: name :: rest =>
    rw [List.map_cons, List.map_cons, List.map_cons, ofHeader?, ofHeader?, paramsOf?_onLine,
      Token.typeName_onLine]
    rfl

/-- A prototype is among those that it is put into. -/
theorem Prototype.mem_insertIn (prototype : Prototype) (prototypes : List Prototype) :
    prototype ∈ prototype.insertIn prototypes := by
  rw [insertIn]
  split
  · assumption
  · exact List.mem_append_right _ (.head _)

/-- Putting a prototype in removes none. -/
theorem Prototype.subset_insertIn (prototype : Prototype) (prototypes : List Prototype) :
    prototypes ⊆ prototype.insertIn prototypes := by
  rw [insertIn]
  split
  · exact List.Subset.refl _
  · exact List.subset_append_left _ _

namespace SourceLine

variable {line : SourceLine} {tokens : List Token}

/-- The number of a line does not matter for the word that it starts with. -/
theorem startsWith_eq (htokens : line.tokens? = some tokens) (word : String) (number : Nat) :
    line.startsWith word = Token.startWith word (tokens.map (Token.onLine number)) := by
  rw [startsWith, htokens, Option.any_some, Token.startWith_onLine]

/-- The header of a function has tokens that say so, whatever the number of the line. -/
theorem exists_of_prototype? {prototype : Prototype} (h : line.prototype? = some prototype)
    (number : Nat) : ∃ tokens names, line.tokens? = some tokens ∧ tokens ≠ [] ∧
      Prototype.ofHeader? (tokens.map (Token.onLine number)) = some (prototype, names) := by
  obtain ⟨⟨prototype, names⟩, hbound, rfl⟩ := Option.map_eq_some_iff.1 h
  obtain ⟨tokens, htokens, hheader⟩ := Option.bind_eq_some_iff.1 hbound
  refine ⟨tokens, names, htokens, ?_, by rw [Prototype.ofHeader?_onLine, hheader]⟩
  rintro rfl
  cases hheader

end SourceLine

namespace Survey

variable {survey next : Survey} {prototype : Prototype}

/-- A survey knows a function, and a header has named it unless it has no parameters. -/
structure Settles (survey : Survey) (prototype : Prototype) : Prop where
  /-- The function is known. -/
  known : prototype ∈ survey.prototypes
  /-- Its parameters have names, or there are none. -/
  named : prototype ∈ survey.headers ∨ prototype.params = []

namespace Settles

/-- A header settles its function. -/
theorem withHeader (survey : Survey) (prototype : Prototype) :
    (survey.withHeader prototype).Settles prototype :=
  ⟨prototype.mem_insertIn _, .inl (List.mem_append_right _ (.head _))⟩

/-- A header keeps other functions settled. -/
theorem beside (h : survey.Settles prototype) (other : Prototype) :
    (survey.withHeader other).Settles prototype :=
  ⟨other.subset_insertIn _ h.known, h.named.imp_left (List.mem_append_left _)⟩

/-- Every line keeps functions settled. -/
theorem readLine? (h : survey.Settles prototype) {tokens : List Token}
    (hread : survey.readLine? tokens = some next) : next.Settles prototype := by
  rw [Survey.readLine?] at hread
  split at hread
  · -- no line of a definition declares or names anything
    split at hread
    · obtain rfl := Option.some.inj hread
      exact ⟨h.known, h.named⟩
    · obtain rfl := Option.some.inj hread
      exact ⟨h.known, h.named⟩
  rw [readTopLine?] at hread
  split at hread
  · obtain ⟨⟨other, names⟩, -, rfl⟩ := Option.map_eq_some_iff.1 hread
    have hbeside := h.beside other
    exact ⟨hbeside.known, hbeside.named⟩
  split at hread
  · obtain ⟨⟨other, names⟩, -, rfl⟩ := Option.map_eq_some_iff.1 hread
    exact h.beside other
  split at hread
  · obtain ⟨binding, -, rfl⟩ := Option.map_eq_some_iff.1 hread
    exact ⟨h.known, h.named⟩
  · obtain rfl := Option.some.inj hread
    exact h

end Settles

/-- A header settles its function. -/
theorem settles_of_readTopLine? {tokens : List Token} {names : List String}
    (hword : Token.startWith "dec" tokens ∨ Token.startWith "def" tokens)
    (hheader : Prototype.ofHeader? tokens = some (prototype, names))
    (hread : survey.readTopLine? tokens = some next) : next.Settles prototype := by
  rw [readTopLine?, hheader] at hread
  split at hread
  · obtain rfl := Option.some.inj hread
    have hsettles := Settles.withHeader survey prototype
    exact ⟨hsettles.known, hsettles.named⟩
  · next hdef =>
    rw [if_pos (hword.resolve_right hdef)] at hread
    obtain rfl := Option.some.inj hread
    exact .withHeader survey prototype

/-- Outside of functions there is no open definition. -/
theorem Describes.current_eq_none {position : Position} {program : Program}
    {layout : Outline InstructionRef} {made : List (InstructionLine × InstructionRef)}
    (h : survey.Describes position program layout made) (hclosed : position.openFunction = none) :
    survey.current = none := by
  rw [Option.eq_none_iff_forall_ne_some]
  intro definition hcurrent
  have hopen := (h.at_of_some hcurrent).1
  rw [hclosed] at hopen
  exact Bool.false_ne_true hopen

/-- The survey behind a line is that of its tokens. -/
theorem readSourceLine?_of_tokens? {line : SourceLine} {tokens : List Token}
    (htokens : line.tokens? = some tokens) (number : Nat) : survey.readSourceLine? number line =
      if tokens = [] then some survey
      else survey.readLine? (tokens.map (Token.onLine number)) := by
  cases line with
  | undecodable => cases htokens
  | text characters =>
    rw [readSourceLine?, SourceLine.ofLine_of_tokens? htokens]
    cases tokens <;> rfl

end Survey

/-! ## Reading what is there already -/

/-- A change that leaves an entry as it is leaves the arena as it is. -/
theorem Arena.modify_eq_self {κ α : Type} {tag : κ} {arena : Arena tag α} {ref : Ref tag}
    {change : α → α} (h : ∀ entry, arena.get? ref = some entry → change entry = entry) :
    arena.modify ref change = arena := by
  obtain ⟨entries⟩ := arena
  refine congrArg Arena.mk (Array.ext_getElem? fun index => ?_)
  rw [Array.getElem?_modify]
  split
  · next hindex =>
    subst hindex
    cases hentry : entries[ref.index]? with
    | none => rfl
    | some entry => exact congrArg some (h entry hentry)
  · rfl

/-- A function of a layout is found by its name and its type. -/
theorem Program.Laid.function_of_mem {program : Program} {layout : Outline InstructionRef}
    (h : program.Laid layout) {prototype : Prototype} (hmem : prototype ∈ layout.prototypes) :
    ∃ (type : TypeRef) (function : FunctionRef), program.PrototypeIs type prototype ∧
      layout.prototypes[function.index]? = some prototype ∧
      program.functionOfType? prototype.name type = .ok (some function) := by
  obtain ⟨place, hplace⟩ := List.getElem?_of_mem hmem
  obtain ⟨entry, -, -, htype⟩ := h.function_of_prototype hplace
  have hfunction := h.functionOfType?_eq htype
  cases hfind : layout.prototypes.findIdx? (· == prototype) with
  | none => exact absurd (List.findIdx?_eq_none_iff.1 hfind prototype hmem) (by simp)
  | some index =>
    obtain ⟨hlt, hequal, -⟩ := List.findIdx?_eq_some_iff_getElem.1 hfind
    rw [hfind] at hfunction
    refine ⟨entry.type, ⟨index⟩, htype, ?_, hfunction⟩
    rw [List.getElem?_eq_getElem hlt, eq_of_beq hequal]

namespace Edit

variable {program : Program}

/-- A function type that is there is found. -/
theorem functionType_of_typeName (h : program.Interned) {signature : Signature} {type : TypeRef}
    {prototype : Prototype} (hresult : program.typeName signature.result = .ok prototype.result)
    (hparams : List.Forall₂ (fun param name => program.typeName param = .ok name) signature.params
      prototype.params)
    (hvariadic : signature.variadic = prototype.variadic)
    (htype : program.typeName type = .ok prototype.type) :
    functionType signature program = .ok (type, program) := by
  have hnames : (signature.params.mapM fun param => ask (·.typeName param)) program =
      .ok (prototype.params, program) := mapM_ask_of_ok hparams
  have hfind := h.find?_of_typeName htype
  rw [Prototype.type, ← hvariadic] at hfind
  rw [functionType, Step.bind_of_ok (ask_of_ok hresult), Step.bind_of_ok hnames, intern, hfind]

/-- To give a function the names of parameters that it has changes nothing. -/
theorem setParams_of_eq {function : FunctionRef} {entry : Function}
    (hentry : program.functions.get? function = some entry) :
    setParams function entry.params program = .ok ((), program) := by
  have hsame : program.functions.modify function
      (fun found => { found with params := entry.params }) = program.functions := by
    refine Arena.modify_eq_self fun found hfound => ?_
    obtain rfl := Option.some.inj (hfound.symm.trans hentry)
    rfl
  rw [setParams, updateFunction_of_some ⟨entry, hentry⟩, hsame]

end Edit

namespace LineReader

variable {number count : Nat} {tokens : List Token} {program : Program}

/-- Parameters whose types are there are read, and nothing is created. -/
theorem paramsWithin_of_typeNames (number : Nat) (hinterned : program.Interned)
    (hmarks : ∀ token ∈ tokens, token.kind ≠ .eof) {params : List (String × String)}
    {variadic : Bool} (hparams : Prototype.paramsOf? tokens = some (params, variadic))
    {refs : List TypeRef}
    (hknown : List.Forall₂ (fun ref type => program.typeName ref = .ok type) refs
      (params.map Prod.fst))
    (hcount : tokens.length ≤ count) : ∃ read,
      paramsWithin count ⟨number, tokens, program⟩ =
        .ok ((read, variadic), ⟨number, [], program⟩) ∧
      List.Forall₂ (fun param named => program.typeName param.1 = .ok named.1 ∧ param.2 = named.2)
        read params := by
  -- a parameter has tokens, so the count is no bound before the line is at its end
  induction tokens using Prototype.paramsOf?.induct generalizing params variadic refs count with
  | case1 =>
    obtain ⟨rfl, rfl⟩ := Prod.mk.inj (Option.some.inj hparams)
    refine ⟨[], ?_, .nil⟩
    cases count <;> rfl
  | case2 mark hmark =>
    rw [Prototype.paramsOf?, if_pos hmark] at hparams
    obtain ⟨rfl, rfl⟩ := Prod.mk.inj (Option.some.inj hparams)
    obtain _ | count := count
    · exact absurd hcount (by simp)
    refine ⟨[], ?_, .nil⟩
    rw [paramsWithin, Step.bind_of_ok (atEnd_apply _)]
    refine (atWord_of_isWord hmark).trans ?_
    rw [Step.bind_of_ok (take_at _ (hmarks mark (.head _))), Step.bind_of_ok (finish_of_nil rfl)]
    rfl
  | case3 mark hmark => rw [Prototype.paramsOf?, if_neg hmark] at hparams; cases hparams
  | case4 type name rest hmark => rw [Prototype.paramsOf?, if_pos hmark] at hparams; cases hparams
  | case5 type name rest hmark ih =>
    rw [Prototype.paramsOf?, if_neg hmark] at hparams
    obtain ⟨⟨others, mark⟩, hothers, hequal⟩ := Option.map_eq_some_iff.1 hparams
    obtain ⟨rfl, rfl⟩ := Prod.mk.inj hequal
    obtain _ | count := count
    · exact absurd hcount (by simp)
    obtain ⟨ref, refs, htype, hrest, rfl⟩ := List.forall₂_cons_right_iff.1 hknown
    obtain ⟨htypeMark, hmarks⟩ := List.forall_mem_cons.1 hmarks
    obtain ⟨hnameMark, hmarks⟩ := List.forall_mem_cons.1 hmarks
    have hshorter : rest.length ≤ count := by
      simp only [List.length_cons] at hcount
      omega
    obtain ⟨read, hread, hall⟩ := ih hmarks hothers hrest hshorter
    refine ⟨(ref, name.value) :: read, ?_, .cons ⟨htype, rfl⟩ hall⟩
    rw [paramsWithin, Step.bind_of_ok (atEnd_apply _)]
    refine (atWord_of_not hmark).trans ?_
    rw [Step.bind_of_ok (type_of_typeByName htypeMark (hinterned.typeByName_iff_canonical.2 htype)),
      Step.bind_of_ok (take_at _ hnameMark), Step.bind_of_ok hread]
    rfl

/-- The parts of the header of a function that is there lead to the function, and nothing is
created. -/
theorem headerOf_of_function {state : LineState} (hinterned : state.program.Interned)
    (prototype : Prototype) {result : TypeRef} {params : List (TypeRef × String)} {type : TypeRef}
    {function : FunctionRef} (hresult : state.program.typeName result = .ok prototype.result)
    (hparams : List.Forall₂ (fun param name => state.program.typeName param.1 = .ok name) params
      prototype.params)
    (htype : state.program.typeName type = .ok prototype.type)
    (hfunction : state.program.functionOfType? prototype.name type = .ok (some function)) :
    headerOf result prototype.name params prototype.variadic state =
      .ok (⟨prototype.name, type, params.map Prod.snd, function⟩, state) := by
  have htyped : Edit.functionType ⟨result, params.map Prod.fst, prototype.variadic⟩ state.program =
      .ok (type, state.program) :=
    Edit.functionType_of_typeName hinterned hresult (List.forall₂_map_left_iff.2 hparams) rfl htype
  rw [headerOf, Step.bind_of_ok (edit_of_ok htyped), Step.bind_of_ok (ask_of_ok hfunction)]
  rfl

/-- The header of a function that is there leads to the function, and nothing is created. -/
theorem header_of_function (number : Nat) (hinterned : program.Interned)
    (hmarks : ∀ token ∈ tokens, token.kind ≠ .eof) {prototype : Prototype} {names : List String}
    (hheader : Prototype.ofHeader? tokens = some (prototype, names)) {type : TypeRef}
    {function : FunctionRef} (htype : program.PrototypeIs type prototype)
    (hfunction : program.functionOfType? prototype.name type = .ok (some function)) :
    header ⟨number, tokens, program⟩ =
      .ok (⟨prototype.name, type, names, function⟩, ⟨number, [], program⟩) := by
  match tokens, hheader with
  | keyword :: result :: name :: rest, hheader =>
    rw [Prototype.ofHeader?] at hheader
    obtain ⟨⟨params, variadic⟩, hparams, hequal⟩ := Option.map_eq_some_iff.1 hheader
    obtain ⟨rfl, rfl⟩ := Prod.mk.inj hequal
    obtain ⟨hkeyword, hmarks⟩ := List.forall_mem_cons.1 hmarks
    obtain ⟨hresultMark, hmarks⟩ := List.forall_mem_cons.1 hmarks
    obtain ⟨hnameMark, hmarks⟩ := List.forall_mem_cons.1 hmarks
    have htypeName := htype.typeName
    -- the types of the function are there
    obtain ⟨signature, -, hresult, htypes, -⟩ := htype
    obtain ⟨read, hread, hall⟩ :=
      paramsWithin_of_typeNames number hinterned hmarks hparams htypes le_rfl
    have hread : LineReader.params ⟨number, rest, program⟩ =
        .ok ((read, variadic), ⟨number, [], program⟩) := hread
    have hnames : read.map Prod.snd = params.map Prod.snd := by
      rw [← List.forall₂_eq_eq_eq, List.forall₂_map_left_iff, List.forall₂_map_right_iff]
      exact hall.imp fun _ _ hparam => hparam.2
    have hheaded : headerOf signature.result name.value read variadic ⟨number, [], program⟩ =
        .ok (⟨name.value, type, read.map Prod.snd, function⟩, ⟨number, [], program⟩) :=
      headerOf_of_function hinterned ⟨name.value, result.typeName, params.map Prod.fst, variadic⟩
        hresult (List.forall₂_map_right_iff.2 (hall.imp fun _ _ hparam => hparam.1)) htypeName
        hfunction
    rw [hnames] at hheaded
    rw [header, Step.bind_of_ok (take_at _ hkeyword), Step.bind_of_ok (type_of_typeByName
      hresultMark (hinterned.typeByName_iff_canonical.2 hresult)),
      Step.bind_of_ok (take_at _ hnameMark), Step.bind_of_ok hread]
    exact hheaded

/-- To declare a function again that has a name for each parameter changes nothing. -/
theorem declare_of_params {state : LineState} (position : Position) {header : Header}
    {type : String} {entry : Function} (htype : state.program.typeName header.type = .ok type)
    (hentry : state.program.functions.get? header.function = some entry)
    (hlength : header.params.length = entry.params.length) :
    ∃ record, declare position header state = .ok ((position, record), state) := by
  refine ⟨some ⟨.debug, "declared `" ++ header.name ++ "` as " ++ type⟩, ?_⟩
  rw [declare, Step.bind_of_ok (ask_of_ok htype),
    Step.bind_of_ok (ask_of_ok (Program.found_eq_ok.2 hentry))]
  split
  · next hempty => -- the names are none, as before
    have hnone : entry.params = [] := List.isEmpty_iff.1 hempty
    have hsame : header.params = entry.params := by
      rw [hnone] at hlength ⊢
      exact List.length_eq_zero_iff.1 hlength
    rw [hsame, Step.bind_of_ok (edit_of_ok (Edit.setParams_of_eq hentry))]
    rfl
  · rfl

/-- A line that declares a function again changes nothing. -/
theorem topLine_of_prototype (number : Nat) {layout : Outline InstructionRef}
    (hlaid : program.Laid layout) (hmarks : ∀ token ∈ tokens, token.kind ≠ .eof)
    (hword : Token.startWith "dec" tokens) {prototype : Prototype} {names : List String}
    (hheader : Prototype.ofHeader? tokens = some (prototype, names))
    (hmem : prototype ∈ layout.prototypes)
    (hnamed : ∀ routine ∈ layout.routines, routine.prototype = prototype →
      routine.params.length = prototype.params.length) (position : Position) :
    ∃ record, topLine position ⟨number, tokens, program⟩ =
      .ok ((position, record), ⟨number, [], program⟩) := by
  obtain ⟨type, function, htype, hprototype, hfunction⟩ := hlaid.function_of_mem hmem
  have hread := header_of_function number hlaid.interned hmarks hheader htype hfunction
  obtain ⟨routine, hroutine, hsame⟩ := Outline.exists_routine_of_prototype hprototype
  obtain ⟨entry, hentry, his⟩ := hlaid.function_of_routine hroutine
  -- parameters are named again only when their number differs, which it does not
  have hlength : names.length = entry.params.length := by
    rw [his.params, hnamed routine (List.mem_of_getElem? hroutine) hsame,
      Prototype.length_of_ofHeader? hheader]
  obtain ⟨record, hdeclared⟩ : ∃ record, declare position ⟨prototype.name, type, names, function⟩
      ⟨number, [], program⟩ = .ok ((position, record), ⟨number, [], program⟩) :=
    declare_of_params position htype.typeName hentry hlength
  refine ⟨record, ?_⟩
  have hdef := Token.startWith_of_ne hword (show "dec" ≠ "def" by decide)
  rw [topLine, Step.bind_of_ok (atWord_apply _ _)]
  rw [Token.startWith] at hword hdef
  rw [hdef, if_neg Bool.false_ne_true, Step.bind_of_ok (atWord_apply _ _), if_pos hword,
    Step.bind_of_ok hread, hdeclared]

end LineReader

/-! ## Settled functions -/

/-- A settled function has a name for each parameter. -/
theorem Survey.Describes.length_params {survey : Survey} {position : Position} {program : Program}
    {layout : Outline InstructionRef} {made : List (InstructionLine × InstructionRef)}
    (h : survey.Describes position program layout made) {prototype : Prototype}
    (hsettles : survey.Settles prototype) {routine : Routine InstructionRef}
    (hroutine : routine ∈ layout.routines) (hsame : routine.prototype = prototype) :
    routine.params.length = prototype.params.length := by
  obtain ⟨index, hindex⟩ := List.getElem?_of_mem hroutine
  obtain hlength | ⟨hnone, -, hheaders⟩ := h.named index routine hindex
  · rw [hlength, hsame]
  · -- a function without names that no header has named has no parameters either
    rw [hsame] at hheaders
    rw [hnone, hsettles.named.resolve_left hheaders]

namespace Reader

variable {reader next final : Reader} {line : SourceLine} {record : Option LogRecord}
  {prototype : Prototype}

/-- Where reading stands, a function is known, and a header has named it unless it has no
parameters. -/
def Settled (reader : Reader) (prototype : Prototype) : Prop :=
  ∃ survey : Survey, survey.DescribesReader reader ∧ survey.Settles prototype

/-- Every line keeps functions settled. -/
theorem Settled.readLine (h : reader.Settled prototype)
    (hrun : reader.readLine line = .ok (next, record)) : next.Settled prototype := by
  obtain ⟨survey, hdescribes, hsettles⟩ := h
  obtain ⟨-, further, hfurther, hnext⟩ := hdescribes.readLine hrun
  obtain ⟨tokens, htokens, -⟩ := readLine_eq_ok.1 hrun
  rw [Survey.readSourceLine?_of_tokens? htokens] at hfurther
  split at hfurther
  · obtain rfl := Option.some.inj hfurther
    exact ⟨survey, hnext, hsettles⟩
  · exact ⟨further, hnext, hsettles.readLine? hfurther⟩

/-- A header outside of functions settles its function. -/
theorem settled_of_header {survey : Survey} (hdescribes : survey.DescribesReader reader)
    (houtside : reader.isInside = false) (hword : line.startsWith "dec" ∨ line.startsWith "def")
    (hheader : line.prototype? = some prototype)
    (hrun : reader.readLine line = .ok (next, record)) : next.Settled prototype := by
  obtain ⟨-, further, hfurther, hnext⟩ := hdescribes.readLine hrun
  refine ⟨further, hnext, ?_⟩
  obtain ⟨layout, made, hdescribes⟩ := hdescribes
  have hclosed : reader.position.openFunction = none := by simpa [isInside] using houtside
  obtain ⟨tokens, names, htokens, hne, hheader⟩ :=
    SourceLine.exists_of_prototype? hheader (reader.line + 1)
  rw [Survey.readSourceLine?_of_tokens? htokens, if_neg hne, Survey.readLine?,
    hdescribes.current_eq_none hclosed] at hfurther
  rw [SourceLine.startsWith_eq htokens "dec" (reader.line + 1),
    SourceLine.startsWith_eq htokens "def" (reader.line + 1)] at hword
  exact Survey.settles_of_readTopLine? hword hheader hfurther

/-- Behind accepted lines there is a survey of them. -/
theorem exists_describesReader {source : Source}
    (h : ({} : Reader).readLines source = .ok final) :
    ∃ survey : Survey, survey.DescribesReader final := by
  have hstep {reader next : Reader} {line : SourceLine} {record : Option LogRecord}
      (hsurvey : ∃ survey : Survey, survey.DescribesReader reader)
      (hline : reader.readLine line = .ok (next, record)) :
      ∃ survey : Survey, survey.DescribesReader next := by
    obtain ⟨survey, hdescribes⟩ := hsurvey
    obtain ⟨-, further, -, hnext⟩ := hdescribes.readLine hline
    exact ⟨further, hnext⟩
  exact property_of_readLines hstep ⟨{}, Survey.describes_initial⟩ h

/-- What a source settles is settled behind it. -/
theorem settled_of_readLines {source : Source} (h : ({} : Reader).readLines source = .ok final)
    (hsettles : source.Settles prototype) : final.Settled prototype := by
  obtain ⟨front, header, back, rfl, houtside, hword, hheader⟩ | ⟨hbuiltin, hparams⟩ := hsettles
  · obtain ⟨middle, hfront, hrest⟩ := readLines_append_eq_ok.1 h
    obtain ⟨next, record, hline, hback⟩ := readLines_cons_eq_ok.1 hrest
    obtain ⟨survey, hdescribes⟩ := exists_describesReader hfront
    have hnext := settled_of_header hdescribes ((isInside_of_readLines hfront).trans houtside) hword
      hheader hline
    exact property_of_readLines (fun hsettled hline => Settled.readLine hsettled hline) hnext hback
  · -- a builtin function is there from the start
    have hstart : ({} : Reader).Settled prototype :=
      ⟨{}, Survey.describes_initial, hbuiltin, .inr hparams⟩
    exact property_of_readLines (fun hsettled hline => Settled.readLine hsettled hline) hstart h

/-- **Declaring what is settled**: a line that declares a settled function again changes nothing but
the number of the line. -/
theorem readLine_settled (h : reader.Settled prototype) (houtside : reader.isInside = false)
    (hword : line.startsWith "dec") (hheader : line.prototype? = some prototype) :
    ∃ record, reader.readLine line = .ok ({ reader with line := reader.line + 1 }, record) := by
  obtain ⟨survey, ⟨layout, made, hdescribes⟩, hsettles⟩ := h
  have hclosed : reader.position.openFunction = none := by simpa [isInside] using houtside
  obtain ⟨tokens, names, htokens, hne, hheader⟩ :=
    SourceLine.exists_of_prototype? hheader (reader.line + 1)
  have hmarks : ∀ token ∈ tokens.map (Token.onLine (reader.line + 1)), token.kind ≠ .eof := by
    cases line with
    | undecodable => cases htokens
    | text characters => exact Token.kind_ne_eof_of_ofLine (SourceLine.ofLine_of_tokens? htokens _)
  rw [SourceLine.startsWith_eq htokens "dec" (reader.line + 1)] at hword
  have hmem : prototype ∈ layout.prototypes := hdescribes.follows.prototypes ▸ hsettles.known
  obtain ⟨record, hread⟩ := LineReader.topLine_of_prototype (reader.line + 1)
    hdescribes.formed.toLaid hmarks hword hheader hmem
    (fun routine hroutine => hdescribes.length_params hsettles hroutine) reader.position
  have hsource : LineReader.sourceLine reader.position = LineReader.topLine reader.position := by
    rw [LineReader.sourceLine, hclosed]
    rfl
  rw [← hsource] at hread
  exact ⟨record, readLine_eq_ok.2 ⟨tokens, htokens, .inr ⟨hne, _, _, hread, rfl⟩⟩⟩

end Reader

open Reader in
/-- Declaring a function once more leaves what is read as it is. -/
theorem Source.Redeclare.readLines {source source' : Source} (h : source.Redeclare source')
    {final : Reader} (hlines : ({} : Reader).readLines source = .ok final) :
    ∃ final', ({} : Reader).readLines source' = .ok final' ∧ final.SamePlace final' := by
  obtain ⟨before, after, houtside, hsettles, hword, hheader⟩ := h
  obtain ⟨middle, hbefore, hafter⟩ := readLines_append_eq_ok.1 hlines
  obtain ⟨record, hline⟩ := readLine_settled (settled_of_readLines hbefore hsettles)
    ((isInside_of_readLines hbefore).trans houtside) hword hheader
  obtain ⟨final', hrest, hfinal⟩ :=
    readLines_insert (reachable_of_readLines hbefore) hline hafter
  exact ⟨final', readLines_append_eq_ok.2 ⟨middle, hbefore, hrest⟩, hfinal⟩

namespace Reading

/-- **Declaring a function again does nothing.** Wherever functions that a source has declared or
defined, or builtin functions without parameters, are declared again, a source that is accepted is
accepted still, with the same program: the same types, functions and overloads in the same order,
the same names of parameters, and the same bodies, calls and all. -/
theorem accepts_redeclared {source source' : Source} (hredeclared : source.Redeclared source')
    {program : Program} (haccepted : (ofSource source).result = .ok program) :
    (ofSource source').result = .ok program :=
  result_of_samePlace Source.Redeclare.readLines hredeclared haccepted

/-- A builtin function without parameters is declared, and a function between its declaration and
its definition and behind both, with other names of its parameter and other spellings of its
type. -/
theorem accepts_redeclared_spelled : ∃ program : Program,
    (ofText "dec num f num[3] a\ndef num f num[3] b\nret %b num[3]\nenddef\n").result =
      .ok program ∧
    (ofSource [.text "dec num random".toList, .text "dec num f num[3] a".toList,
      .text "dec num f num[+3] c".toList, .text "def num f num[3] b".toList,
      .text "ret %b num[3]".toList, .text "enddef".toList,
      .text "dec num f num[03] d".toList]).result = .ok program ∧
    program.functions.size = 14 ∧
    (program.functions.get? ⟨13⟩).map Function.params = some ["b"] := by
  have hrandom : Source.Settles [] ⟨"random", "num", [], false⟩ := .inr (by decide)
  have hdeclared (back : Source) : Source.Declares
      (.text "dec num random".toList :: .text "dec num f num[3] a".toList :: back)
      ⟨"f", "num", ["num[3]"], false⟩ :=
    ⟨[.text "dec num random".toList], .text "dec num f num[3] a".toList, back, rfl,
      by decide +kernel, .inl (by decide +kernel), by decide +kernel⟩
  -- three lines are inserted one after another: for a builtin, before a definition, at the end
  have hbuiltin : Source.Redeclare
      (Source.ofText "dec num f num[3] a\ndef num f num[3] b\nret %b num[3]\nenddef\n")
      [.text "dec num random".toList, .text "dec num f num[3] a".toList,
        .text "def num f num[3] b".toList, .text "ret %b num[3]".toList, .text "enddef".toList] :=
    .declaration [] _ (by decide +kernel) hrandom (by decide +kernel) (by decide +kernel)
  have hbetween : Source.Redeclare
      [.text "dec num random".toList, .text "dec num f num[3] a".toList,
        .text "def num f num[3] b".toList, .text "ret %b num[3]".toList, .text "enddef".toList]
      [.text "dec num random".toList, .text "dec num f num[3] a".toList,
        .text "dec num f num[+3] c".toList, .text "def num f num[3] b".toList,
        .text "ret %b num[3]".toList, .text "enddef".toList] :=
    .declaration [.text "dec num random".toList, .text "dec num f num[3] a".toList] _
      (by decide +kernel) (.inl (hdeclared [])) (by decide +kernel) (by decide +kernel)
  have hbehind : Source.Redeclare
      [.text "dec num random".toList, .text "dec num f num[3] a".toList,
        .text "dec num f num[+3] c".toList, .text "def num f num[3] b".toList,
        .text "ret %b num[3]".toList, .text "enddef".toList]
      [.text "dec num random".toList, .text "dec num f num[3] a".toList,
        .text "dec num f num[+3] c".toList, .text "def num f num[3] b".toList,
        .text "ret %b num[3]".toList, .text "enddef".toList,
        .text "dec num f num[03] d".toList] :=
    .declaration [.text "dec num random".toList, .text "dec num f num[3] a".toList,
      .text "dec num f num[+3] c".toList, .text "def num f num[3] b".toList,
      .text "ret %b num[3]".toList, .text "enddef".toList] [] (by decide +kernel)
      (.inl (hdeclared _)) (by decide +kernel) (by decide +kernel)
  have haccepted : accepts "dec num f num[3] a\ndef num f num[3] b\nret %b num[3]\nenddef\n"
      fun program => program.functions.size = 14 ∧
        (program.functions.get? ⟨13⟩).map Function.params = some ["b"] := by
    decide +kernel
  obtain ⟨program, hread, htest⟩ := exists_of_accepts haccepted
  obtain ⟨hsize, hparams⟩ := of_decide_eq_true htest
  exact ⟨program, hread, accepts_redeclared (((Relation.ReflTransGen.single hbuiltin).tail
    hbetween).tail hbehind) hread, hsize, hparams⟩

end Reading

end ChainIR
