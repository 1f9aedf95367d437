import Mathlib
import ChainIR.Proofs.Reading.Directive
import ChainIR.Proofs.Reading.Survey

/-! # Layouts that follow surveys

As a source is read, the layout of the program follows the survey of the source
(`Outline.Follows`): the same functions and globals in the same order, and in each function the
blocks that the lines of its definitions make, by the labels in force at them. Whatever line is
read, the layout and the survey change alike. At most one definition of a function has lines that
hold instructions, and none follows it. -/

namespace ChainIR

/-! ## Lines by functions -/

/-- The lines of one function among lines with what has been made of them, by their labels. -/
def itemsOf {σ : Type} (prototype : Prototype) (made : List (InstructionLine × σ)) :
    List (String × σ) :=
  (made.filter fun item => item.1.prototype = prototype).map fun item => (item.1.label, item.2)

/-- One more line is an item of its function alone. -/
theorem itemsOf_concat {σ : Type} (prototype : Prototype) (made : List (InstructionLine × σ))
    (line : InstructionLine) (statement : σ) : itemsOf prototype (made ++ [(line, statement)]) =
      itemsOf prototype made ++
        if line.prototype = prototype then [(line.label, statement)] else [] := by
  rw [itemsOf, itemsOf, List.filter_append, List.map_append]
  by_cases hsame : line.prototype = prototype <;> simp [hsame]

/-- A function without blocks has no lines. -/
theorem itemsOf_eq_nil {σ : Type} {prototype : Prototype} {made : List (InstructionLine × σ)} :
    itemsOf prototype made = [] ↔ ∀ line ∈ made.map Prod.fst, line.prototype ≠ prototype := by
  rw [itemsOf, List.map_eq_nil_iff, List.filter_eq_nil_iff]
  simp

/-- The lines of a definition are lines of its function. -/
theorem Opening.toOpening_of_mem {opening : Opening} {label : String} {body : List (List Token)}
    {line : InstructionLine} (h : line ∈ opening.linesUnder label body) :
    line.toOpening = opening := by
  induction body generalizing label with
  | nil => exact absurd h List.not_mem_nil
  | cons tokens rest ih =>
    rw [linesUnder] at h
    split at h
    · exact ih h
    · rcases List.mem_cons.1 h with rfl | h
      · rfl
      · exact ih h

/-! ## Open and ended definitions -/

namespace Survey

variable {survey : Survey}

/-- A line is a line of some definition. -/
theorem exists_of_mem_lines {line : InstructionLine} (h : line ∈ survey.lines) :
    ∃ definition ∈ survey.definitions, line ∈ definition.lines ∧
      line.toOpening = definition.toOpening := by
  obtain ⟨definition, hmem, hline⟩ := List.mem_flatMap.1 h
  exact ⟨definition, hmem, hline, Opening.toOpening_of_mem hline⟩

/-- When no definition is open, all have ended. -/
theorem definitions_of_none (h : survey.current = none) : survey.definitions = survey.ended := by
  rw [definitions, h]
  exact List.append_nil _

/-- The open definition is the last one. -/
theorem definitions_of_some {definition : Definition} (h : survey.current = some definition) :
    survey.definitions = survey.ended ++ [definition] := by
  rw [definitions, h]
  rfl

/-- Definitions are of functions that have been declared, and behind one that has lines there is
none of the same function. -/
structure Single (survey : Survey) : Prop where
  /-- The functions have been declared. -/
  known : ∀ definition ∈ survey.definitions, definition.prototype ∈ survey.prototypes
  /-- Nothing follows a definition that has lines. -/
  once : survey.definitions.Pairwise fun earlier later =>
    earlier.prototype = later.prototype → earlier.lines = []

/-- The open definition may go on. -/
theorem Single.withCurrent (h : survey.Single) {definition further : Definition}
    (hopen : survey.current = some definition) (hsame : further.prototype = definition.prototype) :
    Single { survey with current := some further } := by
  obtain ⟨hknown, honce⟩ := h
  rw [definitions_of_some hopen] at hknown honce
  rw [List.pairwise_append] at honce
  constructor
  · intro other hmem
    rw [definitions_of_some rfl] at hmem
    rcases List.mem_append.1 hmem with hother | hlast
    · exact hknown other (List.mem_append_left _ hother)
    · obtain rfl := List.mem_singleton.1 hlast
      rw [hsame]
      exact hknown definition (List.mem_append_right _ (.head _))
  · rw [definitions_of_some rfl, List.pairwise_append]
    refine ⟨honce.1, List.pairwise_singleton _ _, fun earlier hearlier later hlater => ?_⟩
    obtain rfl := List.mem_singleton.1 hlater
    rw [hsame]
    exact honce.2.2 earlier hearlier definition (.head _)

end Survey

namespace Outline

/-! ## Layouts of surveys -/

/-- **Layouts that follow surveys**: a layout has the functions and globals of a survey, and in each
function the blocks of its lines. -/
structure Follows {σ : Type} (layout : Outline σ) (survey : Survey)
    (made : List (InstructionLine × σ)) : Prop where
  /-- The functions are the same. -/
  prototypes : layout.prototypes = survey.prototypes
  /-- The globals are the same. -/
  globals : layout.globals = survey.globals
  /-- Something has been made of every line. -/
  lines : made.map Prod.fst = survey.lines
  /-- The blocks are those of the lines. -/
  blocks : ∀ routine ∈ layout.routines,
    routine.blocks = Routine.blocksOf (itemsOf routine.prototype made)
  /-- A function is defined once. -/
  single : survey.Single

namespace Follows

variable {σ : Type} {layout : Outline σ} {survey : Survey} {made : List (InstructionLine × σ)}

/-- A function that has not been declared has no lines. -/
theorem itemsOf_eq_nil_of_not_mem (h : layout.Follows survey made) {prototype : Prototype}
    (hnew : prototype ∉ layout.prototypes) : itemsOf prototype made = [] := by
  rw [itemsOf_eq_nil, h.lines]
  intro line hmem hsame
  obtain ⟨definition, hdefinition, -, hopening⟩ := Survey.exists_of_mem_lines hmem
  have hknown := h.single.known definition hdefinition
  rw [← hopening, hsame, ← h.prototypes] at hknown
  exact hnew hknown

/-- A function whose layout has no blocks has no lines in any definition. -/
theorem lines_eq_nil (h : layout.Follows survey made) {routine : Routine σ}
    (hmem : routine ∈ layout.routines) (hblocks : routine.blocks = [])
    {definition : Definition} (hdefinition : definition ∈ survey.definitions)
    (hsame : definition.prototype = routine.prototype) : definition.lines = [] := by
  -- every item of the function would have its label among the blocks
  have hitems : itemsOf routine.prototype made = [] := by
    have hnone := h.blocks routine hmem
    rw [hblocks, Routine.blocksOf, eq_comm, List.map_eq_nil_iff] at hnone
    rw [List.eq_nil_iff_forall_not_mem]
    intro item hitem
    have hlabel := List.mem_eraseDups.2 (List.mem_map_of_mem (f := Prod.fst) hitem)
    rw [hnone] at hlabel
    exact List.not_mem_nil hlabel
  rw [itemsOf_eq_nil, h.lines] at hitems
  rw [List.eq_nil_iff_forall_not_mem]
  intro line hline
  refine hitems line (List.mem_flatMap.2 ⟨definition, hdefinition, hline⟩) ?_
  have hopening := Opening.toOpening_of_mem hline
  rw [hopening, hsame]

/-- Only what a survey says of functions, globals and definitions matters. -/
theorem congr (h : layout.Follows survey made) {other : Survey}
    (hprototypes : other.prototypes = survey.prototypes) (hglobals : other.globals = survey.globals)
    (hdefinitions : other.definitions = survey.definitions) : layout.Follows other made where
  prototypes := by rw [hprototypes, h.prototypes]
  globals := by rw [hglobals, h.globals]
  lines := by rw [Survey.lines, hdefinitions, h.lines, Survey.lines]
  blocks := h.blocks
  single := by
    refine ⟨?_, ?_⟩ <;> rw [hdefinitions]
    · rw [hprototypes]
      exact h.single.known
    · exact h.single.once

/-- Naming the parameters of a function. -/
theorem withParams (h : layout.Follows survey made) (function : FunctionRef)
    (params : List String) : (layout.modify function (·.withParams params)).Follows survey made where
  prototypes := by
    have hsame : ∀ routine : Routine σ, (routine.withParams params).prototype =
        routine.prototype := fun _ => rfl
    rw [layout.prototypes_modify function hsame, h.prototypes]
  globals := h.globals
  lines := h.lines
  blocks := Outline.forall_mem_routines_modify h.blocks fun _ hblocks => hblocks
  single := h.single

/-- Defining a global. -/
theorem define (h : layout.Follows survey made) (name : String) (literal : Literal) :
    (layout.define name literal).Follows
      { survey with globals := survey.globals ++ [(name, literal)] } made where
  prototypes := h.prototypes
  globals := by rw [Outline.define, h.globals]
  lines := h.lines
  blocks := h.blocks
  single := ⟨h.single.known, h.single.once⟩

/-- Reading a header. -/
theorem including (h : layout.Follows survey made) (prototype : Prototype) :
    (layout.including prototype).Follows (survey.withHeader prototype) made where
  prototypes := by
    rw [Outline.including, Survey.withHeader, Prototype.insertIn, ← h.prototypes]
    split
    · rfl
    · exact layout.prototypes_declare prototype
  globals := by
    rw [Outline.including]
    split <;> exact h.globals
  lines := h.lines
  blocks := by
    rw [Outline.including]
    split
    · exact h.blocks
    · next hnew => -- a new prototype has no items yet, for every item has a known one
      intro routine hmem
      rcases List.mem_append.1 hmem with hold | hlast
      · exact h.blocks routine hold
      · obtain rfl := List.mem_singleton.1 hlast
        have hitems := h.itemsOf_eq_nil_of_not_mem hnew
        rw [Routine.declared, hitems]
        rfl
  single := by
    refine ⟨fun definition hmem => ?_, h.single.once⟩
    have hknown := h.single.known definition hmem
    rw [Survey.withHeader, Prototype.insertIn]
    split
    · exact hknown
    · exact List.mem_append_left _ hknown

/-- Opening the definition of a function without blocks. -/
theorem opened (h : layout.Follows survey made) (hclosed : survey.current = none)
    {prototype : Prototype} {routine : Routine σ}
    (hmem : routine ∈ (layout.including prototype).routines)
    (hprototype : routine.prototype = prototype) (hblocks : routine.blocks = []) :
    (layout.including prototype).Follows (survey.opened prototype) made := by
  have hheader := h.including prototype
  have hdefinitions : (survey.opened prototype).definitions = survey.definitions ++
      [⟨⟨prototype, prototype.insertIn survey.prototypes, survey.globals⟩, []⟩] := by
    rw [Survey.definitions_of_none hclosed, Survey.definitions_of_some rfl]
    rfl
  refine ⟨hheader.prototypes, hheader.globals, ?_, hheader.blocks, ?_, ?_⟩
  · rw [Survey.lines, hdefinitions, List.flatMap_append, h.lines, Survey.lines]
    exact (List.append_nil _).symm
  · rw [hdefinitions]
    intro definition hdefinition
    rcases List.mem_append.1 hdefinition with hold | hlast
    · exact hheader.single.known definition hold
    · obtain rfl := List.mem_singleton.1 hlast
      show prototype ∈ (survey.withHeader prototype).prototypes
      rw [← hheader.prototypes]
      exact List.mem_map.2 ⟨routine, hmem, hprototype⟩
  · rw [hdefinitions, List.pairwise_append]
    refine ⟨h.single.once, List.pairwise_singleton _ _, fun earlier hearlier later hlater hsame => ?_⟩
    obtain rfl := List.mem_singleton.1 hlater
    -- the function has no blocks yet, so no definition of it has lines
    exact hheader.lines_eq_nil hmem hblocks hearlier (hsame.trans hprototype.symm)

/-- Ending a definition. -/
theorem closed (h : layout.Follows survey made) : layout.Follows survey.closed made :=
  h.congr rfl rfl (Survey.definitions_of_none rfl)

/-- Passing a label line. -/
theorem passLabel (h : layout.Follows survey made) {definition : Definition}
    (hopen : survey.current = some definition) {tokens : List Token} {name : String}
    (hlabel : Token.labelOf? tokens = some name) :
    layout.Follows { survey with current := some (definition.withLine tokens) } made := by
  obtain ⟨hlines, -⟩ := Definition.lines_withLine_of_label hlabel definition
  have hold := Survey.definitions_of_some hopen
  have hnew : Survey.definitions { survey with current := some (definition.withLine tokens) } =
      survey.ended ++ [definition.withLine tokens] := Survey.definitions_of_some rfl
  refine ⟨h.prototypes, h.globals, ?_, h.blocks, h.single.withCurrent hopen rfl⟩
  rw [h.lines, Survey.lines, Survey.lines, hold, hnew, List.flatMap_append, List.flatMap_append,
    List.flatMap_singleton, List.flatMap_singleton, hlines]

/-- Passing a line that holds an instruction. -/
theorem passLine (h : layout.Follows survey made) {definition : Definition}
    (hopen : survey.current = some definition) {tokens : List Token}
    (hlabel : Token.labelOf? tokens = none) {function : FunctionRef} (hnodup : layout.prototypes.Nodup)
    (hfunction : layout.prototypes[function.index]? = some definition.prototype) (statement : σ) :
    (layout.modify function (·.append definition.label statement)).Follows
      { survey with current := some (definition.withLine tokens) }
      (made ++ [({ definition with label := definition.label, tokens }, statement)]) := by
  obtain ⟨hlines, -⟩ := Definition.lines_withLine_of_none hlabel definition
  have hold := Survey.definitions_of_some hopen
  have hnew : Survey.definitions { survey with current := some (definition.withLine tokens) } =
      survey.ended ++ [definition.withLine tokens] := Survey.definitions_of_some rfl
  have hprototypes := layout.prototypes_modify function
    (Routine.prototype_append definition.label statement)
  refine ⟨hprototypes.trans h.prototypes, h.globals, ?_, ?_, h.single.withCurrent hopen rfl⟩
  · rw [List.map_append, h.lines, Survey.lines, Survey.lines, hold, hnew, List.flatMap_append,
      List.flatMap_append, List.flatMap_singleton, List.flatMap_singleton, hlines, List.append_assoc]
    rfl
  · intro routine hmem
    obtain ⟨index, hindex⟩ := List.getElem?_of_mem hmem
    rw [itemsOf_concat]
    rw [getElem?_routines_modify] at hindex
    split at hindex
    · next hequal => -- the function that is open gets the item
      obtain ⟨old, hroutine, rfl⟩ := Option.map_eq_some_iff.1 hindex
      have hprototype : old.prototype = definition.prototype := by
        rw [hequal, prototype_of_routine hroutine] at hfunction
        exact Option.some.inj hfunction
      rw [Routine.prototype_append, if_pos hprototype.symm]
      exact Routine.append_of_blocksOf (h.blocks old (List.mem_of_getElem? hroutine)) _ _
    · next hne => -- any other function has another prototype, so the item is none of its own
      have hother : routine.prototype ≠ definition.prototype := by
        intro hsame
        have hplace := prototype_of_routine hindex
        rw [hsame] at hplace
        exact hne (index_unique hnodup hfunction hplace)
      rw [if_neg (Ne.symm hother), List.append_nil]
      exact h.blocks routine (List.mem_of_getElem? hindex)

end Follows

end Outline

/-! ## Names of parameters -/

/-- Appending does not change the names of parameters. -/
theorem Routine.params_append {σ : Type} (name : String) (statement : σ) (routine : Routine σ) :
    (routine.append name statement).params = routine.params := by
  rw [append, push, withLabel]
  split <;> rfl

/-- A function that is there with a header has been there before, or has only now been
declared. -/
theorem Outline.getElem?_routines_including {σ : Type} (layout : Outline σ)
    {prototype : Prototype} {index : Nat} {routine : Routine σ}
    (h : (layout.including prototype).routines[index]? = some routine) :
    layout.routines[index]? = some routine ∨ routine = .declared prototype := by
  rw [including] at h
  split at h
  · exact .inl h
  · rcases getElem?_routines_declare.1 h with hold | ⟨-, rfl⟩
    · exact .inl hold
    · exact .inr rfl

/-- A function has a name for each parameter, or it has none, and is a builtin function that no
header has named. -/
def Routine.Named {σ : Type} (headers : List Prototype) (index : Nat) (routine : Routine σ) :
    Prop :=
  routine.params.length = routine.prototype.params.length ∨
    routine.params = [] ∧ index < Program.builtinCount ∧ routine.prototype ∉ headers

/-- The functions of a layout have names for their parameters, as far as headers give them. -/
def Outline.Named {σ : Type} (layout : Outline σ) (headers : List Prototype) : Prop :=
  ∀ (index : Nat) (routine : Routine σ), layout.routines[index]? = some routine →
    routine.Named headers index

namespace Outline.Named

variable {σ : Type} {layout : Outline σ} {headers : List Prototype} {prototype : Prototype}

/-- The builtin functions have no names for their parameters. -/
theorem ofPrototypes : (Outline.ofPrototypes builtinPrototypes : Outline σ).Named [] := by
  intro index routine hroutine
  rw [Outline.ofPrototypes, List.getElem?_map] at hroutine
  obtain ⟨prototype, hprototype, rfl⟩ := Option.map_eq_some_iff.1 hroutine
  exact .inr ⟨rfl, (List.getElem?_eq_some_iff.1 hprototype).1, List.not_mem_nil⟩

/-- A header names one function and leaves the others as they were. -/
theorem others (h : layout.Named headers) (hnodup : (layout.including prototype).prototypes.Nodup)
    {function : FunctionRef}
    (hfunction : (layout.including prototype).prototypes[function.index]? = some prototype)
    {index : Nat} {routine : Routine σ}
    (hroutine : (layout.including prototype).routines[index]? = some routine)
    (hother : index ≠ function.index) : routine.Named (headers ++ [prototype]) index := by
  have hne : routine.prototype ≠ prototype := by
    intro hsame
    have hplace := prototype_of_routine hroutine
    rw [hsame] at hplace
    exact hother (index_unique hnodup hplace hfunction)
  -- it is none that has only now been declared, since that is the function of the header
  rcases layout.getElem?_routines_including hroutine with hold | rfl
  · rcases h index routine hold with hnames | ⟨hnames, hbuiltin, hheaders⟩
    · exact .inl hnames
    · exact .inr ⟨hnames, hbuiltin, by simp [hheaders, hne]⟩
  · exact absurd rfl hne

/-- The function of a header gets the names that it gives. -/
theorem withParams (h : layout.Named headers)
    (hnodup : (layout.including prototype).prototypes.Nodup) {function : FunctionRef}
    (hfunction : (layout.including prototype).prototypes[function.index]? = some prototype)
    {names : List String} (hnames : names.length = prototype.params.length) :
    ((layout.including prototype).modify function (·.withParams names)).Named
      (headers ++ [prototype]) := by
  intro index routine hroutine
  rw [getElem?_routines_modify] at hroutine
  split at hroutine
  · next hequal =>
    obtain ⟨old, hold, rfl⟩ := Option.map_eq_some_iff.1 hroutine
    rw [hequal, prototype_of_routine hold] at hfunction
    obtain rfl := Option.some.inj hfunction
    exact .inl hnames
  · next hne => exact h.others hnodup hfunction hroutine (Ne.symm hne)

/-- The function of a header keeps the names that it has. -/
theorem keep (h : layout.Named headers)
    (hnodup : (layout.including prototype).prototypes.Nodup) {function : FunctionRef}
    (hfunction : (layout.including prototype).prototypes[function.index]? = some prototype)
    {routine : Routine σ}
    (hroutine : (layout.including prototype).routines[function.index]? = some routine)
    (hparams : routine.params ≠ []) :
    (layout.including prototype).Named (headers ++ [prototype]) := by
  intro index other hother
  by_cases hequal : index = function.index
  · obtain rfl := Option.some.inj (hother.symm.trans (hequal ▸ hroutine))
    rcases layout.getElem?_routines_including hother with hold | rfl
    · rcases h index other hold with hnames | ⟨hnone, -⟩
      · exact .inl hnames
      · exact absurd hnone hparams
    · -- a function that has only now been declared has no names
      exact absurd rfl hparams
  · exact h.others hnodup hfunction hother hequal

/-- Changing what stands in a function does not change the names of its parameters. -/
theorem append (h : layout.Named headers) (function : FunctionRef) (name : String)
    (statement : σ) : (layout.modify function (·.append name statement)).Named headers := by
  intro index routine hroutine
  rw [getElem?_routines_modify] at hroutine
  split at hroutine
  · obtain ⟨old, hold, rfl⟩ := Option.map_eq_some_iff.1 hroutine
    have hnamed := h index old hold
    rw [Routine.Named] at hnamed ⊢
    rw [Routine.prototype_append, Routine.params_append]
    exact hnamed
  · exact h index routine hroutine

end Outline.Named

end ChainIR
