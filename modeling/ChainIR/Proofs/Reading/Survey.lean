import Mathlib
import ChainIR.Source
import ChainIR.Token.Line
import ChainIR.Proofs.Outline.Builtin
import ChainIR.Proofs.Reading.Phrase

/-! # What a source says

A survey reads a source off its tokens alone, without a program: which globals and functions it
has, and which definitions there are, with the lines between their headers and their ends
(`Survey.ofSource?`). A line of a definition that consists of one block token is a label line; any
other line holds an instruction, and belongs to the label that is in force there: that of the last
label line in front of it, or else the one without a name (`Definition.lines`).

What a line says depends on what stands in front of its definition, since a callee is found among
the functions declared there, and a global has the type of its literal there
(`InstructionLine.statement?`). -/

namespace ChainIR

/-- What is known where a definition begins. -/
structure Opening where
  /-- The function that is defined. -/
  prototype : Prototype
  /-- The functions declared so far, this one among them. -/
  declared : List Prototype
  /-- The globals defined so far. -/
  globals : List (String × Literal)

/-- A line of a definition that holds an instruction. -/
structure InstructionLine extends Opening where
  /-- The label in force at the line. -/
  label : String
  /-- The tokens of the line. -/
  tokens : List Token

/-- The instruction that a line says, with the callee that a call means. -/
def InstructionLine.statement? (line : InstructionLine) : Option (Statement Callee) :=
  (Statement.ofLine? line.globals line.tokens).bind (Statement.resolve line.declared)

namespace Opening

/-- The label in force behind some lines, if one is in force in front of them. -/
def labelBehind (label : String) (body : List (List Token)) : String :=
  (body.filterMap Token.labelOf?).getLast?.getD label

/-- The lines among some that hold instructions, if a label is in force in front of them. -/
def linesUnder (opening : Opening) (label : String) : List (List Token) → List InstructionLine
  | [] => []
  | tokens :: rest =>
    match Token.labelOf? tokens with
    | some name => linesUnder opening name rest
    | none => { opening with label, tokens } :: linesUnder opening label rest

/-- One more line behind others. -/
theorem linesUnder_concat (opening : Opening) (label : String) (body : List (List Token))
    (tokens : List Token) : opening.linesUnder label (body ++ [tokens]) =
      opening.linesUnder label body ++
        if (Token.labelOf? tokens).isSome then []
        else [{ opening with label := labelBehind label body, tokens }] := by
  -- what is in force behind the first line is in force in front of the others
  induction body generalizing label with
  | nil => cases hlabel : Token.labelOf? tokens <;> simp [linesUnder, labelBehind, hlabel]
  | cons first rest ih =>
    rw [List.cons_append, linesUnder, linesUnder]
    cases hfirst : Token.labelOf? first with
    | some name =>
      have hbehind : labelBehind name rest = labelBehind label (first :: rest) := by
        rw [labelBehind, labelBehind, List.filterMap_cons_some hfirst, List.getLast?_cons]
        rfl
      exact hbehind ▸ ih name
    | none =>
      have hbehind : labelBehind label rest = labelBehind label (first :: rest) := by
        rw [labelBehind, labelBehind, List.filterMap_cons_none hfirst]
      rw [ih label, List.cons_append, hbehind]

end Opening

/-- A definition of a function: what is known at its header, and the lines behind the header. -/
structure Definition extends Opening where
  /-- The lines between the header and the end. -/
  body : List (List Token) := []

namespace Definition

/-- The lines that hold instructions. -/
def lines (definition : Definition) : List InstructionLine :=
  definition.linesUnder "" definition.body

/-- The label in force at the end. -/
def label (definition : Definition) : String := Opening.labelBehind "" definition.body

/-- The definition with one more line. -/
def withLine (definition : Definition) (tokens : List Token) : Definition :=
  { definition with body := definition.body ++ [tokens] }

/-- A label line holds no instruction. -/
theorem lines_withLine_of_label {tokens : List Token} {name : String}
    (h : Token.labelOf? tokens = some name) (definition : Definition) :
    (definition.withLine tokens).lines = definition.lines ∧
      (definition.withLine tokens).label = name := by
  constructor
  · rw [lines, withLine, Opening.linesUnder_concat, h]
    exact List.append_nil _
  · rw [label, withLine, Opening.labelBehind, List.filterMap_append,
      List.filterMap_cons_some h, List.filterMap_nil, List.getLast?_concat]
    rfl

/-- Any other line holds an instruction, under the label in force. -/
theorem lines_withLine_of_none {tokens : List Token} (h : Token.labelOf? tokens = none)
    (definition : Definition) :
    (definition.withLine tokens).lines =
        definition.lines ++ [{ definition with label := definition.label, tokens }] ∧
      (definition.withLine tokens).label = definition.label := by
  constructor
  · rw [lines, withLine, Opening.linesUnder_concat, h]
    rfl
  · rw [label, withLine, Opening.labelBehind, List.filterMap_append,
      List.filterMap_cons_none h, List.filterMap_nil, List.append_nil]
    rfl

end Definition

/-! ## Surveys -/

/-- The prototypes of functions, with one that may be among them. -/
def Prototype.insertIn (prototype : Prototype) (prototypes : List Prototype) : List Prototype :=
  if prototype ∈ prototypes then prototypes else prototypes ++ [prototype]

/-- What the lines of a source say, as far as they have been read. -/
structure Survey where
  /-- The globals in order of definition. -/
  globals : List (String × Literal) := []
  /-- The functions in order of declaration. -/
  prototypes : List Prototype := builtinPrototypes
  /-- The functions that headers have named so far, declared there or not. -/
  headers : List Prototype := []
  /-- The definitions that have ended. -/
  ended : List Definition := []
  /-- The definition that has not ended yet. -/
  current : Option Definition := none

namespace Survey

/-- All definitions in order. -/
def definitions (survey : Survey) : List Definition := survey.ended ++ survey.current.toList

/-- The lines that hold instructions, in order. -/
def lines (survey : Survey) : List InstructionLine := survey.definitions.flatMap Definition.lines

/-- A header has been read. -/
def withHeader (survey : Survey) (prototype : Prototype) : Survey :=
  { survey with
    prototypes := prototype.insertIn survey.prototypes
    headers := survey.headers ++ [prototype] }

/-- A definition begins. -/
def opened (survey : Survey) (prototype : Prototype) : Survey :=
  { survey.withHeader prototype with
    current := some ⟨⟨prototype, prototype.insertIn survey.prototypes, survey.globals⟩, []⟩ }

/-- The definition has ended. -/
def closed (survey : Survey) : Survey :=
  { survey with ended := survey.definitions, current := none }

/-- The survey behind a line outside of definitions, if the line can be read. -/
def readTopLine? (survey : Survey) (tokens : List Token) : Option Survey :=
  if Token.startWith "def" tokens then
    (Prototype.ofHeader? tokens).map fun (prototype, _) => survey.opened prototype
  else if Token.startWith "dec" tokens then
    (Prototype.ofHeader? tokens).map fun (prototype, _) => survey.withHeader prototype
  else if Token.startWith "global" tokens then
    (Literal.ofGlobalLine? tokens).map fun binding =>
      { survey with globals := survey.globals ++ [binding] }
  else some survey

/-- The survey behind a line, if the line can be read. -/
def readLine? (survey : Survey) (tokens : List Token) : Option Survey :=
  match survey.current with
  | some definition =>
    if Token.startWith "enddef" tokens then some survey.closed
    else some { survey with current := some (definition.withLine tokens) }
  | none => survey.readTopLine? tokens

/-- The survey behind a physical line, if the line can be read; one without tokens is passed
over. -/
def readSourceLine? (survey : Survey) (number : Nat) : SourceLine → Option Survey
  | .undecodable => none
  | .text characters =>
    match Token.ofLine number characters with
    | .error _ => none
    | .ok [] => some survey
    | .ok (token :: tokens) => survey.readLine? (token :: tokens)

/-- The survey behind physical lines that stand behind `number` others, if they can be read. -/
def readLines? (survey : Survey) (number : Nat) : Source → Option Survey
  | [] => some survey
  | line :: rest =>
    (survey.readSourceLine? (number + 1) line).bind fun next => next.readLines? (number + 1) rest

/-- What a source says, if its lines can be read and all of its definitions end. -/
def ofSource? (source : Source) : Option Survey :=
  (readLines? {} 0 source).filter fun survey => survey.current.isNone

end Survey

/-! ## Blocks -/

namespace Routine

variable {σ : Type}

/-- What stands under a label, among items that have labels. -/
def itemsUnder (name : String) (items : List (String × σ)) : List σ :=
  (items.filter fun item => item.1 = name).map Prod.snd

/-- The blocks of items that have labels: one for each label, in order of first occurrence. -/
def blocksOf (items : List (String × σ)) : List (Block σ) :=
  (items.map Prod.fst).eraseDups.map fun name => ⟨name, itemsUnder name items⟩

/-- Blocks have the labels of their items. -/
theorem labels_blocksOf (items : List (String × σ)) :
    (blocksOf items).map Block.name = (items.map Prod.fst).eraseDups := by
  rw [blocksOf, List.map_map]
  exact List.map_id _

/-- One more item is one more under its own name alone. -/
theorem itemsUnder_concat (name : String) (items : List (String × σ)) (item : String × σ) :
    itemsUnder name (items ++ [item]) =
      itemsUnder name items ++ if item.1 = name then [item.2] else [] := by
  rw [itemsUnder, itemsUnder, List.filter_append, List.map_append]
  by_cases hname : item.1 = name <;> simp [hname]

/-- There is nothing under a label that no item has. -/
theorem itemsUnder_eq_nil {name : String} {items : List (String × σ)}
    (h : name ∉ items.map Prod.fst) : itemsUnder name items = [] := by
  rw [itemsUnder, List.map_eq_nil_iff, List.filter_eq_nil_iff]
  intro item hmem
  have hne : item.1 ≠ name := fun hequal => h (hequal ▸ List.mem_map_of_mem hmem)
  simpa using hne

/-- Appending an item to blocks is what appending a statement to a function does. -/
theorem append_of_blocksOf {routine : Routine σ} {items : List (String × σ)}
    (h : routine.blocks = blocksOf items) (name : String) (statement : σ) :
    (routine.append name statement).blocks = blocksOf (items ++ [(name, statement)]) := by
  have hlabels : routine.labels = (items.map Prod.fst).eraseDups := by
    rw [labels, h, labels_blocksOf]
  -- pushing fills the block of the label and leaves the others alone
  have hpush : ∀ other, Block.push name statement ⟨other, itemsUnder other items⟩ =
      ⟨other, itemsUnder other (items ++ [(name, statement)])⟩ := by
    intro other
    rw [Block.push, itemsUnder_concat]
    by_cases hname : other = name
    · simp [hname]
    · simp [hname, Ne.symm hname]
  rw [append, push, withLabel, hlabels, blocksOf, List.map_append, List.map_singleton,
    List.eraseDups_append]
  split
  · next hmem => -- the label has a block already
    have hin : name ∈ items.map Prod.fst := List.mem_eraseDups.1 hmem
    have hnothing : [name].removeAll (items.map Prod.fst) = [] := by
      simpa [List.removeAll] using hin
    rw [hnothing, h, blocksOf, List.map_map]
    simp [hpush]
  · next hmem => -- the label is new, and its block is the last one
    have hout : name ∉ items.map Prod.fst := fun hin => hmem (List.mem_eraseDups.2 hin)
    have hone : ([name].removeAll (items.map Prod.fst)).eraseDups = [name] := by
      have hkept : [name].removeAll (items.map Prod.fst) = [name] := by
        simpa [List.removeAll] using hout
      rw [hkept]
      rfl
    have hnew : (⟨name, []⟩ : Block σ) = ⟨name, itemsUnder name items⟩ := by
      rw [itemsUnder_eq_nil hout]
    rw [hone, h, blocksOf]
    simp [hpush, hnew]

/-- The first item is the first statement. -/
theorem first?_of_blocksOf {routine : Routine σ} {items : List (String × σ)}
    (h : routine.blocks = blocksOf items) : routine.first? = (items.map Prod.snd).head? := by
  rw [first?, h, blocksOf]
  cases items with
  | nil => rfl
  | cons item rest => simp [List.eraseDups_cons, itemsUnder]

end Routine

end ChainIR
