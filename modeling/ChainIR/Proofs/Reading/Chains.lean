import Mathlib
import ChainIR.Proofs.Reading.Described
import ChainIR.Proofs.Reading.Invariant

/-! # The chains that a source says

An accepted source is turned into the chains that its definitions say. At most one definition of a
function has lines that hold instructions, and it is the last one of the function. The labels of
the function are those in force at these lines, in order of first occurrence; the chain of a label
holds the instructions of its lines in their order, also if the label is opened several times; and
the entry is the instruction of the first line (`Program.BodyIs`). There are no other instructions
than those of the lines and those whose results they set a register to (`Reading.chains_of_ok`). -/

namespace ChainIR

/-! ## Bodies and blocks -/

namespace Program

/-- The body of a function consists of the given instructions, which stand under labels. -/
structure BodyIs (program : Program) (function : FunctionRef) (entry : Function)
    (items : List (String × InstructionRef)) : Prop where
  /-- The labels are those of the instructions in order of first occurrence. -/
  labels : List.Forall₂
    (fun label name => ∃ found, program.labels.get? label = some found ∧ found.name = name)
    entry.labels (items.map Prod.fst).eraseDups
  /-- The chain of each label holds its instructions, and there are no other chains. -/
  chains : ∀ name, program.chainNamed function name = .ok (Routine.itemsUnder name items)
  /-- The entry is the first instruction. -/
  entry : entry.entry = (items.map Prod.snd).head?

end Program

/-- What stands under a label of a function whose blocks are made of items. -/
theorem Routine.under_of_blocksOf {σ : Type} {routine : Routine σ} {items : List (String × σ)}
    (h : routine.blocks = blocksOf items) (hnodup : routine.labels.Nodup) (name : String) :
    routine.under name = itemsUnder name items := by
  by_cases hname : name ∈ items.map Prod.fst
  · have hblock : (⟨name, itemsUnder name items⟩ : Block σ) ∈ routine.blocks := by
      rw [h, blocksOf]
      exact List.mem_map.2 ⟨name, List.mem_eraseDups.2 hname, rfl⟩
    exact under_of_mem hnodup hblock
  · rw [itemsUnder_eq_nil hname]
    refine under_of_not_mem fun hmem => hname ?_
    rwa [labels, h, labels_blocksOf, List.mem_eraseDups] at hmem

/-- The body of a function consists of the instructions of which its blocks are made. -/
theorem Program.WellFormed.bodyIs {program : Program} {layout : Outline InstructionRef}
    (h : program.WellFormed layout) {function : FunctionRef} {entry : Function}
    (hentry : program.functions.get? function = some entry)
    {items : List (String × InstructionRef)}
    (hblocks : layout.blocksAt function = Routine.blocksOf items) :
    program.BodyIs function entry items := by
  obtain ⟨routine, hroutine, his⟩ := h.functions function entry hentry
  rw [Outline.blocksAt, hroutine, Option.map_some, Option.getD_some] at hblocks
  constructor
  · rw [← Routine.labels_blocksOf, ← hblocks, List.forall₂_map_right_iff]
    refine his.labels.imp fun label block hlabel => ?_
    obtain ⟨found, hfound, hsame, -⟩ := hlabel.entry
    exact ⟨found, hfound, hsame⟩
  · intro name
    rw [h.toLaid.chainNamed_eq hroutine,
      Routine.under_of_blocksOf hblocks (h.labels routine (List.mem_of_getElem? hroutine))]
  · rw [h.entered function entry hentry, hroutine, Option.bind_some,
      Routine.first?_of_blocksOf hblocks]

namespace Outline.Follows

variable {layout : Outline InstructionRef} {survey : Survey}
  {made : List (InstructionLine × InstructionRef)} {program : Program}

/-- The body of a function of a program that follows a survey consists of what its lines say. -/
theorem bodyIs (h : layout.Follows survey made) (hformed : program.WellFormed layout)
    {function : FunctionRef} {entry : Function} {prototype : Prototype}
    (hentry : program.functions.get? function = some entry) (hname : entry.name = prototype.name)
    (htype : program.PrototypeIs entry.type prototype) :
    program.BodyIs function entry (itemsOf prototype made) := by
  obtain ⟨routine, hroutine, his⟩ := hformed.functions function entry hentry
  -- a name and a type have one prototype
  obtain rfl : routine.prototype = prototype := by
    have htypes := Except.ok.inj (his.type.typeName.symm.trans htype.typeName)
    exact his.type.unique hformed.interned htype (his.name.symm.trans hname) htypes
  refine hformed.bodyIs hentry ?_
  rw [Outline.blocksAt, hroutine, Option.map_some, Option.getD_some]
  exact h.blocks routine (List.mem_of_getElem? hroutine)

end Outline.Follows

namespace Survey

variable {survey : Survey} {σ : Type} {made : List (InstructionLine × σ)}

/-- The lines of a definition that has lines are all lines of its function. -/
theorem Single.lines_eq (h : survey.Single) {definition : Definition}
    (hmem : definition ∈ survey.definitions) (hlines : definition.lines ≠ []) :
    survey.lines.filter (·.prototype = definition.prototype) = definition.lines := by
  obtain ⟨front, back, hsplit⟩ := List.append_of_mem hmem
  have honce := h.once
  rw [hsplit, List.pairwise_append, List.pairwise_cons] at honce
  obtain ⟨-, ⟨hback, -⟩, hfront⟩ := honce
  have hkeep : definition.lines.filter (·.prototype = definition.prototype) = definition.lines := by
    refine List.filter_eq_self.2 fun line hline => ?_
    have hopening := Opening.toOpening_of_mem hline
    rw [hopening]
    exact decide_eq_true rfl
  -- no other definition has lines of the function
  have hdrop : ∀ definitions : List Definition,
      (∀ other ∈ definitions, other.prototype = definition.prototype → other.lines = []) →
      (definitions.flatMap Definition.lines).filter (·.prototype = definition.prototype) = [] := by
    intro definitions hothers
    rw [List.filter_eq_nil_iff]
    intro line hline
    obtain ⟨other, hother, hline⟩ := List.mem_flatMap.1 hline
    have hopening := Opening.toOpening_of_mem hline
    rw [hopening, decide_eq_true_eq]
    intro hsame
    rw [hothers other hother hsame] at hline
    exact List.not_mem_nil hline
  have hnone := hdrop front fun other hother hsame => hfront other hother definition (.head _) hsame
  have hnothing := hdrop back fun other hother hsame =>
    absurd (hback other hother hsame.symm) hlines
  rw [lines, hsplit, List.flatMap_append, List.flatMap_cons, List.filter_append,
    List.filter_append, hnone, hnothing, hkeep, List.nil_append, List.append_nil]

end Survey

/-! ## Accepted sources -/

namespace Reading

/-- **An accepted source is turned into its own chains.** At most one definition of a function has
lines that hold instructions, and none of the function follows it. The instructions are those that
the lines say, each behind the one whose result it sets a register to, if it does. Whatever has a
definition is a function of the program. The body of a function consists of the instructions of its
lines: those of its definition that has lines, or none if there is no such definition. -/
theorem chains_of_ok {source : Source} {program : Program}
    (h : (ofSource source).result = .ok program) :
    ∃ survey made, Survey.ofSource? source = some survey ∧
      (survey.definitions.Pairwise fun earlier later =>
        earlier.prototype = later.prototype → earlier.lines = []) ∧
      made.map Prod.fst = survey.lines ∧ (∀ item ∈ made, program.LineIs item.1 item.2) ∧
      program.instructions.refs = made.flatMap (fun item => program.unfolded item.2) ∧
      (∀ definition ∈ survey.definitions, ∃ function entry,
        program.functions.get? function = some entry ∧ entry.name = definition.prototype.name ∧
          program.PrototypeIs entry.type definition.prototype) ∧
      ∀ function entry prototype, program.functions.get? function = some entry →
        entry.name = prototype.name → program.PrototypeIs entry.type prototype →
        program.BodyIs function entry (itemsOf prototype made) ∧
        (∀ definition ∈ survey.definitions, definition.prototype = prototype →
          definition.lines ≠ [] →
          (made.filter (·.1.prototype = prototype)).map Prod.fst = definition.lines) ∧
        ((∀ definition ∈ survey.definitions, definition.prototype = prototype →
          definition.lines = []) → entry.labels = [] ∧ entry.entry = none) := by
  -- the survey is made beside the reader and describes it after every line
  obtain ⟨survey, position, layout, made, hsurvey, hdescribes⟩ := exists_survey_of_ok h
  obtain ⟨hformed, -, hmade, hfollows, -, -⟩ := hdescribes
  refine ⟨survey, made, hsurvey, hfollows.single.once, hfollows.lines, hmade.lines, hmade.refs, ?_,
    ?_⟩
  · intro definition hmem
    have hknown := hfollows.single.known definition hmem
    rw [← hfollows.prototypes] at hknown
    obtain ⟨index, hindex⟩ := List.getElem?_of_mem hknown
    exact ⟨⟨index⟩, hformed.function_of_prototype hindex⟩
  · intro function entry prototype hentry hname htype
    have hbody := hfollows.bodyIs hformed hentry hname htype
    refine ⟨hbody, fun definition hmem hprototype hlines => ?_, fun hnone => ?_⟩
    · -- one definition of the prototype has lines, so they are all that it has
      subst hprototype
      rw [← hfollows.single.lines_eq hmem hlines, ← hfollows.lines, List.filter_map]
      rfl
    · have hitems : itemsOf prototype made = [] := by
        rw [itemsOf_eq_nil, hfollows.lines]
        intro line hline hsame
        obtain ⟨definition, hmem, hline, hopening⟩ := Survey.exists_of_mem_lines hline
        rw [hopening] at hsame
        rw [hnone definition hmem hsame] at hline
        exact List.not_mem_nil hline
      rw [hitems] at hbody
      exact ⟨List.forall₂_nil_right_iff.1 hbody.labels, hbody.entry⟩

/-- A source with a label that is opened twice. -/
def reopenedSource : String :=
  "def num f\n@a\n\t%x call random\n@b\n\tjmp a\n@a\n\tret %x num\nenddef\n"

/-- The chain of a label that is opened twice holds the instructions behind both of its lines. -/
theorem chains_reopened : ∃ program function entry first second third,
    (ofText reopenedSource).result = .ok program ∧
      program.functions.get? function = some entry ∧ entry.name = "f" ∧
      program.chainNamed function "a" = .ok [first, third] ∧
      program.chainNamed function "b" = .ok [second] ∧ entry.entry = some first := by
  have haccepted : accepts reopenedSource fun _ => true := by decide +kernel
  have hmeans : (Survey.ofSource? (.ofText reopenedSource)).any fun survey =>
      survey.definitions.map (fun definition => (definition.prototype.name,
        definition.lines.map InstructionLine.label)) == [("f", ["a", "b", "a"])] := by
    decide +kernel
  obtain ⟨program, hread, -⟩ := exists_of_accepts haccepted
  obtain ⟨survey, made, hsurvey, -, -, -, -, hdefined, hbodies⟩ := chains_of_ok hread
  rw [hsurvey, Option.any_some, beq_iff_eq, List.map_eq_singleton_iff] at hmeans
  obtain ⟨definition, hdefinitions, hdefinition⟩ := hmeans
  obtain ⟨hname, hlabels⟩ := Prod.mk.inj hdefinition
  have hmem : definition ∈ survey.definitions := hdefinitions ▸ .head _
  obtain ⟨function, entry, hentry, hfunction, htype⟩ := hdefined definition hmem
  obtain ⟨hbody, hlines, -⟩ := hbodies function entry definition.prototype hentry hfunction htype
  -- the items of the function are those of the three lines
  have hmade := hlines definition hmem rfl fun hnil => by simp [hnil] at hlabels
  rw [← hmade, List.map_map] at hlabels
  have hitems : (itemsOf definition.prototype made).map Prod.fst = ["a", "b", "a"] := by
    rw [itemsOf, List.map_map]
    exact hlabels
  obtain ⟨⟨_, first⟩, behind, hfirst, rfl, hbehind⟩ := List.map_eq_cons_iff.1 hitems
  obtain ⟨⟨_, second⟩, last, rfl, rfl, hlast⟩ := List.map_eq_cons_iff.1 hbehind
  obtain ⟨⟨_, third⟩, none, rfl, rfl, hnone⟩ := List.map_eq_cons_iff.1 hlast
  obtain rfl := List.map_eq_nil_iff.1 hnone
  rw [hfirst] at hbody
  exact ⟨program, function, entry, first, second, third, hread, hentry, hfunction.trans hname,
    hbody.chains "a", hbody.chains "b", hbody.entry⟩

end Reading

end ChainIR
