import Mathlib
import ChainIR.Proofs.Outline.Layout
import ChainIR.Program.Cursor
import ChainIR.Program.Operand

/-! # What edits do to a layout

Each edit of a program has its counterpart on outlines. Creating values and instructions makes a
program grow; the other edits change one function of the layout or add to its end. Between edits
a program is `WellFormed`: besides its layout, no block is empty and a function has an entry as
soon as it has a label.

* `Edit.append_yields`: appending an instruction is `Routine.append`.
* `Edit.declareFunction_yields`, `Edit.defineGlobal_yields`, `Edit.setParams_yields`. -/

namespace ChainIR

/-! ## New names and new places -/

/-- A table with a new name finds what it has found, and its new entry under the new name. -/
theorem NameTable.find?_insert_eq_some {α : Type} {table : NameTable α} {name : String}
    (hnew : table.find? name = none) (new : α) {key : String} {entry : α} :
    (table.insert name new).find? key = some entry ↔
      table.find? key = some entry ∨ key = name ∧ new = entry := by
  rw [find?_insert]
  split
  · next hkey =>
    subst hkey
    simp [hnew]
  · next hkey => simp [hkey]

/-- A list with a new item at its end has its items at their places, and the new one behind. -/
theorem getElem?_concat_eq_some {α : Type} {items : List α} {item other : α} {position : Nat} :
    (items ++ [item])[position]? = some other ↔
      items[position]? = some other ∨ position = items.length ∧ item = other := by
  grind

/-! ## Changes of layouts -/

namespace Block

variable {σ : Type}

/-- Change what stands in a block of the given name. -/
def update (name : String) (change : List σ → List σ) (block : Block σ) : Block σ :=
  if block.name = name then ⟨block.name, change block.statements⟩ else block

/-- A block keeps its name. -/
@[simp] theorem name_update (name : String) (change : List σ → List σ) (block : Block σ) :
    (block.update name change).name = block.name := by
  rw [update]
  split <;> rfl

end Block

namespace Routine

variable {σ : Type}

/-- Change what stands under the label of the given name. -/
def update (name : String) (change : List σ → List σ) (routine : Routine σ) : Routine σ :=
  { routine with blocks := routine.blocks.map (Block.update name change) }

/-- A function keeps its labels if the statements of one change. -/
@[simp] theorem labels_update (name : String) (change : List σ → List σ) (routine : Routine σ) :
    (routine.update name change).labels = routine.labels := by
  simp [labels, update]

/-- The first statement of a function. -/
def first? (routine : Routine σ) : Option σ :=
  routine.blocks.head?.bind fun block => block.statements.head?

/-- The first statement stays if it does in every block that is not empty. -/
theorem first?_update {routine : Routine σ} (h : ∀ block ∈ routine.blocks, block.statements ≠ [])
    (name : String) {change : List σ → List σ}
    (hchange : ∀ statements, statements ≠ [] → (change statements).head? = statements.head?) :
    (routine.update name change).first? = routine.first? := by
  cases hblocks : routine.blocks with
  | nil => simp [first?, update, hblocks]
  | cons block blocks =>
    have hfirst := hchange block.statements (h block (by simp [hblocks]))
    simp only [first?, update, hblocks, List.map_cons, List.head?_cons, Option.bind_some,
      Block.update]
    split
    · exact hfirst
    · rfl

/-- The first statement that is appended is the first of the function. -/
theorem first?_append {routine : Routine σ} (h : ∀ block ∈ routine.blocks, block.statements ≠ [])
    (name : String) (statement : σ) :
    (routine.append name statement).first? = routine.first?.or (some statement) := by
  by_cases hblocks : routine.blocks = []
  · simp [append, withLabel, labels, hblocks, push, Block.push, first?]
  · obtain ⟨block, blocks, hcons⟩ := List.exists_cons_of_ne_nil hblocks
    obtain ⟨first, others, hstatements⟩ :=
      List.exists_cons_of_ne_nil (h block (by simp [hcons]))
    have hold : routine.first? = some first := by simp [first?, hcons, hstatements]
    have hhead : (routine.withLabel name).blocks.head? = some block := by
      rw [withLabel]
      split <;> simp [hcons]
    rw [hold, Option.some_or, append, first?, push, List.head?_map, hhead, Option.map_some,
      Option.bind_some, Block.push]
    split <;> simp [hstatements]

end Routine

/-- No block of an outline is empty. -/
def Outline.Filled {σ : Type} (outline : Outline σ) : Prop :=
  ∀ routine ∈ outline.routines, ∀ block ∈ routine.blocks, block.statements ≠ []

namespace Program

/-- A program as edits leave it. -/
structure WellFormed (program : Program) (outline : Outline InstructionRef) : Prop
    extends program.Laid outline where
  /-- No label is without instructions. -/
  filled : outline.Filled
  /-- The entry of a function is its first instruction. -/
  entered : ∀ ref entry, program.functions.get? ref = some entry →
    entry.entry = outline.routines[ref.index]?.bind Routine.first?

/-- A program that grows stays well-formed. -/
theorem WellFormed.grows {program after : Program} {outline : Outline InstructionRef}
    (h : program.WellFormed outline) (hgrows : program.Grows after) : after.WellFormed outline where
  toLaid := h.toLaid.grows hgrows
  filled := h.filled
  entered ref entry hentry := h.entered ref entry (hgrows.functions ▸ hentry)

/-- A function has an entry exactly when it has a label. -/
theorem WellFormed.isSome_entry {program : Program} {outline : Outline InstructionRef}
    (h : program.WellFormed outline) {ref : FunctionRef} {entry : Function}
    (hentry : program.functions.get? ref = some entry) :
    entry.entry.isSome ↔ entry.labels ≠ [] := by
  obtain ⟨routine, hroutine, his⟩ := h.functions ref entry hentry
  rw [h.entered ref entry hentry, hroutine, Option.bind_some, Routine.first?]
  have hfilled := h.filled routine (List.mem_of_getElem? hroutine)
  cases hblocks : routine.blocks with
  | nil =>
    have hlabels := his.labels
    rw [hblocks, List.forall₂_nil_right_iff] at hlabels
    simp [hlabels]
  | cons block blocks =>
    obtain ⟨first, others, hstatements⟩ :=
      List.exists_cons_of_ne_nil (hfilled block (by simp [hblocks]))
    have hlabels : entry.labels ≠ [] := by
      intro hnil
      have hlength := his.labels.length_eq
      simp [hnil, hblocks] at hlength
    simp [hstatements, hlabels]

end Program

/-! ## What appending leaves -/

namespace Routine

variable {σ : Type}

/-- A new label changes nothing in the header. -/
@[simp] theorem prototype_withLabel (name : String) (routine : Routine σ) :
    (routine.withLabel name).prototype = routine.prototype := by
  rw [withLabel]
  split <;> rfl

/-- A new statement adds no label. -/
@[simp] theorem labels_push (name : String) (statement : σ) (routine : Routine σ) :
    (routine.push name statement).labels = routine.labels := by
  simp [labels, push]

/-- A new label has a new name. -/
theorem nodup_labels_withLabel {routine : Routine σ} (h : routine.labels.Nodup) (name : String) :
    (routine.withLabel name).labels.Nodup := by
  rw [withLabel]
  split
  · exact h
  · next hnew => simpa [labels, List.nodup_append] using ⟨h, fun block hmem hname =>
      hnew (List.mem_map.2 ⟨block, hmem, hname⟩)⟩

/-- Appending changes nothing in the header. -/
@[simp] theorem prototype_append (name : String) (statement : σ) (routine : Routine σ) :
    (routine.append name statement).prototype = routine.prototype :=
  prototype_withLabel name routine

/-- What stands in a function behind an append stood there before or has been appended. -/
theorem mem_append_blocks {routine : Routine σ} {name : String} {statement other : σ}
    {block : Block σ} (hblock : block ∈ (routine.append name statement).blocks)
    (hother : other ∈ block.statements) :
    (∃ old ∈ routine.blocks, other ∈ old.statements) ∨ other = statement := by
  obtain ⟨labelled, hlabelled, rfl⟩ := List.mem_map.1 hblock
  have hold : ∀ item ∈ labelled.statements, ∃ old ∈ routine.blocks, item ∈ old.statements := by
    intro item hitem
    rw [withLabel] at hlabelled
    split at hlabelled
    · exact ⟨labelled, hlabelled, hitem⟩
    · rcases List.mem_append.1 hlabelled with hmem | hmem
      · exact ⟨labelled, hmem, hitem⟩
      · obtain rfl := List.mem_singleton.1 hmem
        exact absurd hitem List.not_mem_nil
  rw [Block.push] at hother
  split at hother
  · rcases List.mem_append.1 hother with hmem | hmem
    · exact .inl (hold other hmem)
    · exact .inr (List.mem_singleton.1 hmem)
  · exact .inl (hold other hother)

/-- Appending leaves no block empty. -/
theorem append_filled {routine : Routine σ} (h : ∀ block ∈ routine.blocks, block.statements ≠ [])
    (name : String) (statement : σ) :
    ∀ block ∈ (routine.append name statement).blocks, block.statements ≠ [] := by
  intro block hmem
  obtain ⟨old, hold, rfl⟩ := List.mem_map.1 hmem
  rw [Block.push]
  split
  · simp
  · next hname =>
    rw [withLabel] at hold
    split at hold
    · exact h old hold
    · rcases List.mem_append.1 hold with hold | hold
      · exact h old hold
      · obtain rfl := List.mem_singleton.1 hold
        exact absurd rfl hname

end Routine

/-! ## Changes of one function -/

namespace Outline

variable {σ : Type}

/-- Changes of one function one after the other. -/
theorem modify_modify (outline : Outline σ) (function : FunctionRef)
    (first second : Routine σ → Routine σ) :
    (outline.modify function first).modify function second =
      outline.modify function (second ∘ first) := by
  rw [modify, modify, modify, List.modify_modify_eq]

@[simp] theorem globals_modify (outline : Outline σ) (function : FunctionRef)
    (change : Routine σ → Routine σ) :
    (outline.modify function change).globals = outline.globals := rfl

/-- A declaration comes behind the others. -/
@[simp] theorem prototypes_declare (outline : Outline σ) (prototype : Prototype) :
    (outline.declare prototype).prototypes = outline.prototypes ++ [prototype] := by
  simp [prototypes, declare, Routine.declared]

/-- The functions of an outline with one more: those that there were, at their places, and the
declared one behind them. -/
theorem getElem?_routines_declare {outline : Outline σ} {prototype : Prototype} {index : Nat}
    {routine : Routine σ} : (outline.declare prototype).routines[index]? = some routine ↔
      outline.routines[index]? = some routine ∨
        index = outline.routines.length ∧ .declared prototype = routine :=
  getElem?_concat_eq_some

/-- What is so of all functions and of the declared one is so of all functions behind it. -/
theorem forall_mem_routines_declare {outline : Outline σ} {prototype : Prototype}
    {property : Routine σ → Prop} (h : ∀ routine ∈ outline.routines, property routine)
    (hnew : property (.declared prototype)) :
    ∀ routine ∈ (outline.declare prototype).routines, property routine :=
  List.forall_mem_append.2 ⟨h, by simpa using hnew⟩

/-- Changing a function changes the entry at its place alone. -/
theorem getElem?_routines_modify (outline : Outline σ) (function : FunctionRef)
    (change : Routine σ → Routine σ) (index : Nat) :
    (outline.modify function change).routines[index]? =
      if function.index = index then outline.routines[index]?.map change
      else outline.routines[index]? := by
  rw [modify, List.getElem?_modify]
  split <;> simp

/-- A change that leaves the function alone. -/
theorem modify_eq_self {outline : Outline σ} {function : FunctionRef}
    {change : Routine σ → Routine σ}
    (h : ∀ routine, outline.routines[function.index]? = some routine → change routine = routine) :
    outline.modify function change = outline := by
  have hroutines : (outline.modify function change).routines = outline.routines := by
    refine List.ext_getElem? fun index => ?_
    rw [getElem?_routines_modify]
    split
    · next hequal =>
      subst hequal
      cases hroutine : outline.routines[function.index]? with
      | none => rfl
      | some routine => rw [Option.map_some, h routine hroutine]
    · rfl
  cases outline
  simpa [modify] using hroutines

/-- A change that keeps the prototypes of functions keeps those of the outline. -/
theorem prototypes_modify (outline : Outline σ) (function : FunctionRef)
    {change : Routine σ → Routine σ} (h : ∀ routine, (change routine).prototype = routine.prototype) :
    (outline.modify function change).prototypes = outline.prototypes := by
  refine List.ext_getElem? fun index => ?_
  rw [prototypes, prototypes, List.getElem?_map, List.getElem?_map, getElem?_routines_modify]
  split
  · rw [Option.map_map]
    congr 1
    exact funext h
  · rfl

/-- What a change keeps of each function it keeps of all of them. -/
theorem forall_mem_routines_modify {outline : Outline σ} {function : FunctionRef}
    {change : Routine σ → Routine σ} {property : Routine σ → Prop}
    (h : ∀ routine ∈ outline.routines, property routine)
    (hchange : ∀ routine, property routine → property (change routine)) :
    ∀ routine ∈ (outline.modify function change).routines, property routine := by
  intro routine hmem
  obtain ⟨index, hindex⟩ := List.getElem?_of_mem hmem
  rw [getElem?_routines_modify] at hindex
  split at hindex
  · obtain ⟨old, hold, rfl⟩ := Option.map_eq_some_iff.1 hindex
    exact hchange old (h old (List.mem_of_getElem? hold))
  · exact h routine (List.mem_of_getElem? hindex)

end Outline

namespace Program

/-- The table of types is in order if it was and has not changed. -/
theorem Interned.congr {program after : Program} (h : program.Interned)
    (htypes : after.types = program.types) (hnames : after.typeNames = program.typeNames) :
    after.Interned where
  listed := by
    rw [htypes, hnames]
    exact h.listed
  stored := by
    rw [htypes, hnames]
    exact h.stored
  rendered ref entry hentry := by
    obtain ⟨tree, hname, hshape⟩ := h.rendered ref entry (htypes ▸ hentry)
    refine ⟨tree, hname, ?_⟩
    have htypeName : ∀ ref, after.typeName ref = program.typeName ref := fun ref => by
      rw [typeName, typeName, type, type, htypes]
    revert hshape
    cases entry.shape <;> cases tree <;> simp [HasShape, htypeName]

/-- A change of one function leaves a program well-formed if it leaves no label empty and the
function has the entry that its routine gets. -/
theorem WellFormed.modify {program after : Program} {outline : Outline InstructionRef}
    (h : program.WellFormed outline) {function : FunctionRef}
    {change : Routine InstructionRef → Routine InstructionRef}
    (hlaid : after.Laid (outline.modify function change))
    (hfilled : ∀ routine : Routine InstructionRef,
      (∀ block ∈ routine.blocks, block.statements ≠ []) →
        ∀ block ∈ (change routine).blocks, block.statements ≠ [])
    (hothers : ∀ other, other ≠ function →
      after.functions.get? other = program.functions.get? other)
    (hentered : ∀ entry, after.functions.get? function = some entry →
      entry.entry = (outline.routines[function.index]?.map change).bind Routine.first?) :
    after.WellFormed (outline.modify function change) := by
  refine ⟨hlaid, Outline.forall_mem_routines_modify h.filled hfilled, fun ref entry hentry => ?_⟩
  rw [Outline.getElem?_routines_modify]
  by_cases hequal : ref = function
  · subst hequal
    rw [if_pos rfl]
    exact hentered entry hentry
  · rw [if_neg fun hindex => hequal (Ref.eq_of_index hindex.symm)]
    exact h.entered ref entry (hothers ref hequal ▸ hentry)

/-- One function changes, and its routine in the layout with it. -/
theorem Laid.modify {program after : Program} {outline : Outline InstructionRef}
    (h : program.Laid outline) {function : FunctionRef}
    {change : Routine InstructionRef → Routine InstructionRef}
    (hrest : after = { program with
      instructions := after.instructions
      labels := after.labels
      functions := after.functions })
    (hinstructions : ∀ ref entry, program.instructions.get? ref = some entry →
      ∃ entry', after.instructions.get? ref = some entry' ∧ entry'.operation = entry.operation)
    (hfree : ∀ ref entry, after.instructions.get? ref = some entry → entry.label = none →
      entry.IsFree)
    (hsize : after.functions.size = program.functions.size)
    (hothers : ∀ other, other ≠ function →
      after.functions.get? other = program.functions.get? other)
    (hlabels : ∀ other label block, other ≠ function → program.LabelIs other label block →
      after.LabelIs other label block)
    (hfunction : ∀ entry, program.functions.get? function = some entry →
      ∃ entry', after.functions.get? function = some entry' ∧ entry'.name = entry.name ∧
        entry'.type = entry.type ∧
        (program.Extends after → ∀ routine, outline.routines[function.index]? = some routine →
          program.RoutineIs function entry routine →
          after.RoutineIs function entry' (change routine)))
    (hprototype : ∀ routine, (change routine).prototype = routine.prototype)
    (hnodup : ∀ routine, routine.labels.Nodup → (change routine).labels.Nodup) :
    after.Laid (outline.modify function change) ∧ program.Extends after := by
  have htypes : after.types = program.types := by rw [hrest]
  have hglobals : after.globals = program.globals := by rw [hrest]
  have hextends : program.Extends after := by
    refine ⟨fun ref entry hentry => htypes ▸ hentry, fun ref entry hentry => ?_, hinstructions,
      fun ref entry hentry => ?_, fun ref entry hentry => ⟨entry, hglobals ▸ hentry, rfl, rfl⟩⟩
    · rw [hrest]
      exact hentry
    · by_cases hequal : ref = function
      · subst hequal
        obtain ⟨entry', hentry', hname, htype, -⟩ := hfunction entry hentry
        exact ⟨entry', hentry', hname, htype⟩
      · exact ⟨entry, by rw [hothers ref hequal, hentry], rfl, rfl⟩
  refine ⟨⟨h.interned.congr htypes (by rw [hrest]), ?_, by rw [hglobals]; exact h.globalCount,
    fun ref entry hentry => ?_, fun ref entry hentry => ?_, fun name => ?_, fun name ref => ?_, ?_,
    Outline.forall_mem_routines_modify h.labels hnodup, hfree⟩, hextends⟩
  · rw [hsize, h.functionCount, Outline.modify, List.length_modify]
  · -- the function is its changed routine, and the others keep their labels
    rw [Outline.getElem?_routines_modify]
    by_cases hequal : ref = function
    · subst hequal
      rw [if_pos rfl]
      have hlt : ref.index < program.functions.size := hsize ▸ Arena.lt_size_of_get? hentry
      obtain ⟨old, hold⟩ :=
        Option.isSome_iff_exists.1 ((Arena.get?_isSome_iff program.functions ref).2 hlt)
      obtain ⟨entry', hentry', -, -, hroutineIs⟩ := hfunction old hold
      obtain rfl := Option.some.inj (hentry'.symm.trans hentry)
      obtain ⟨routine, hroutine, his⟩ := h.functions ref old hold
      exact ⟨change routine, by rw [hroutine, Option.map_some],
        hroutineIs hextends routine hroutine his⟩
    · rw [if_neg fun hindex => hequal (Ref.eq_of_index hindex.symm)]
      obtain ⟨routine, hroutine, his⟩ := h.functions ref entry (hothers ref hequal ▸ hentry)
      exact ⟨routine, hroutine, his.transfer hextends fun label block =>
        hlabels ref label block hequal⟩
  · obtain ⟨binding, hbinding, his⟩ := h.globals ref entry (hglobals ▸ hentry)
    exact ⟨binding, hbinding, his.mono hextends⟩
  · rw [Outline.prototypes_modify _ _ hprototype, ← h.overloads, overloadsOf, overloadsOf, hrest]
  · rw [Outline.globals_modify, ← h.globalNames, globalNamed?, globalNamed?, hrest]
  · rw [Outline.prototypes_modify _ _ hprototype]
    exact h.prototypes

end Program

/-! ## Functions and labels -/

namespace Edit

open Program

variable {program : Program} {outline : Outline InstructionRef}

/-- A function that is there can be changed. -/
theorem updateFunction_of_some {ref : FunctionRef}
    (h : ∃ entry, program.functions.get? ref = some entry) (change : Function → Function) :
    updateFunction ref change program =
      .ok ((), { program with functions := program.functions.modify ref change }) := by
  obtain ⟨entry, h⟩ := h
  rw [updateFunction, Step.bind_of_ok (ask_of_ok (found_eq_ok.2 h)), Step.modify_apply]

/-- A global that is there can be changed. -/
theorem updateGlobal_of_some {ref : GlobalRef}
    (h : ∃ entry, program.globals.get? ref = some entry) (change : Global → Global) :
    updateGlobal ref change program =
      .ok ((), { program with globals := program.globals.modify ref change }) := by
  obtain ⟨entry, h⟩ := h
  rw [updateGlobal, Step.bind_of_ok (ask_of_ok (found_eq_ok.2 h)), Step.modify_apply]

/-- A change of what is said of a function besides its name, type and labels. -/
theorem updateFunction_yields (h : program.Laid outline) {function : FunctionRef}
    {entry : Function} (hentry : program.functions.get? function = some entry)
    (change : Function → Function)
    (changeRoutine : Routine InstructionRef → Routine InstructionRef)
    (hname : (change entry).name = entry.name) (htype : (change entry).type = entry.type)
    (hroutine : ∀ routine, program.RoutineIs function entry routine →
      program.RoutineIs function (change entry) (changeRoutine routine))
    (hprototype : ∀ routine, (changeRoutine routine).prototype = routine.prototype)
    (hlabels : ∀ routine, (changeRoutine routine).labels = routine.labels) :
    Step.Yields (updateFunction function change) program fun _ after =>
      after = { program with functions := program.functions.modify function change } ∧
        after.Laid (outline.modify function changeRoutine) ∧ program.Extends after := by
  refine ⟨(), _, updateFunction_of_some ⟨entry, hentry⟩ change, rfl, ?_⟩
  refine h.modify rfl (fun ref entry hentry => ⟨entry, hentry, rfl⟩) h.free (by simp)
    (fun other hne => by simp [Arena.get?_modify, hne])
    (fun other label block _ hlabel => hlabel.congr rfl rfl) (fun entry' hentry' => ?_) hprototype
    (fun routine => by simp [hlabels])
  obtain rfl := Option.some.inj (hentry.symm.trans hentry')
  exact ⟨change entry, by simp [Arena.get?_modify, hentry], hname, htype,
    fun hextends routine _ his => (hroutine routine his).congr hextends rfl rfl⟩

/-- Naming the parameters of a function. -/
theorem setParams_yields (h : program.WellFormed outline) {function : FunctionRef}
    {entry : Function} (hentry : program.functions.get? function = some entry)
    (params : List String) :
    Step.Yields (setParams function params) program fun _ after =>
      after.WellFormed (outline.modify function (·.withParams params)) ∧
        program.Extends after ∧ program.instructions = after.instructions := by
  have hupdate := updateFunction_yields h.toLaid hentry (fun entry => { entry with params })
    (·.withParams params) rfl rfl
    (fun routine his => ⟨his.self, his.name, his.type, rfl, his.labels, his.labelNames⟩)
    (fun _ => rfl) (fun _ => rfl)
  refine hupdate.mono fun _ after hafter => ?_
  obtain ⟨rfl, hlaid, hextends⟩ := hafter
  refine ⟨h.modify hlaid (fun _ hfilled => hfilled) (fun other hne => ?_)
    fun entry' hentry' => ?_, hextends, rfl⟩
  · rw [Arena.get?_modify, if_neg hne]
  · rw [Arena.get?_modify, if_pos rfl, hentry, Option.map_some, Option.some.injEq] at hentry'
    subst hentry'
    rw [Option.bind_map]
    exact h.entered function entry hentry

/-- A new label of a function. -/
theorem routineIs_withLabel {after : Program} {function : FunctionRef} {entry : Function}
    {routine : Routine InstructionRef} (his : program.RoutineIs function entry routine)
    {name : String} (hfind : entry.labelNames.find? name = none)
    (hlabels : after.labels =
      (program.labels.allocWith fun self => { self, name, function }).2)
    (hinstructions : after.instructions = program.instructions)
    (hextends : program.Extends after) :
    after.RoutineIs function
      { entry with
        labels := entry.labels ++ [program.labels.nextRef]
        labelNames := entry.labelNames.insert name program.labels.nextRef }
      (routine.withLabel name) := by
  have hnew : name ∉ routine.labels := by
    intro hmem
    obtain ⟨block, hblock, rfl⟩ := List.mem_map.1 hmem
    obtain ⟨label, -, hfound, -⟩ := his.exists_label hblock
    exact nomatch hfound.symm.trans hfind
  -- old labels keep their entries and chains, and the new one has no instructions yet
  have hold : ∀ label block, program.LabelIs function label block →
      after.LabelIs function label block := by
    intro label block hlabel
    obtain ⟨found, hfound, -⟩ := hlabel.entry
    refine hlabel.congr ?_ hinstructions
    rw [hlabels, hfound]
    exact Arena.get?_alloc_of_some hfound _
  have hlabel : after.LabelIs function program.labels.nextRef ⟨name, []⟩ := by
    have hentry : after.labels.get? program.labels.nextRef =
        some { self := program.labels.nextRef, name, function } := by
      rw [hlabels]
      exact Arena.get?_alloc_nextRef _ _
    exact ⟨⟨_, hentry, rfl, rfl⟩, ⟨_, hentry, rfl, rfl⟩, by simp⟩
  rw [Routine.withLabel, if_neg hnew]
  refine ⟨his.self, his.name, his.type.mono hextends, his.params,
    List.rel_append (his.labels.imp hold) (.cons hlabel .nil), fun key label => ?_⟩
  rw [NameTable.find?_insert_eq_some hfind, his.labelNames, List.zip_append his.labels.length_eq,
    List.zip_cons_cons, List.zip_nil_left]
  simp only [List.mem_append, List.mem_singleton, or_and_right, exists_or]
  refine or_congr_right ⟨?_, ?_⟩
  · rintro ⟨rfl, rfl⟩
    exact ⟨⟨key, []⟩, rfl, rfl⟩
  · rintro ⟨block, hpair, rfl⟩
    obtain ⟨rfl, rfl⟩ := Prod.mk.inj hpair
    exact ⟨rfl, rfl⟩

/-- The label of a name. -/
theorem labelNamed_yields (h : program.Laid outline) {function : FunctionRef} {entry : Function}
    (hentry : program.functions.get? function = some entry) (name : String) :
    Step.Yields (labelNamed function name) program fun label after =>
      after.Laid (outline.modify function (·.withLabel name)) ∧ program.Extends after ∧
        after.instructions = program.instructions ∧
        (∀ other, other ≠ function →
          after.functions.get? other = program.functions.get? other) ∧
        ∃ entry', after.functions.get? function = some entry' ∧
          entry'.labelNames.find? name = some label ∧ entry'.entry = entry.entry := by
  obtain ⟨routine, hroutine, his⟩ := h.functions function entry hentry
  have hasked : ask (·.labelNamed? function name) program =
      .ok (entry.labelNames.find? name, program) := by
    refine ask_of_ok ?_
    rw [labelNamed?, show program.function function = .ok entry from found_eq_ok.2 hentry]
    rfl
  rw [labelNamed]
  unfold Step.Yields
  rw [Step.bind_of_ok hasked]
  cases hfind : entry.labelNames.find? name with
  | some label =>
    -- the label is there, so neither the program nor the layout changes
    obtain ⟨block, hmem, rfl⟩ := (his.labelNames name label).1 hfind
    refine ⟨label, program, rfl, ?_, .refl program, rfl, fun _ _ => rfl, entry, hentry, hfind, rfl⟩
    rw [Outline.modify_eq_self]
    · exact h
    · intro routine' hroutine'
      obtain rfl := Option.some.inj (hroutine.symm.trans hroutine')
      exact if_pos (List.mem_map.2 ⟨block, (List.of_mem_zip hmem).2, rfl⟩)
  | none =>
    set change : Function → Function := fun entry =>
      { entry with
        labels := entry.labels ++ [program.labels.nextRef]
        labelNames := entry.labelNames.insert name program.labels.nextRef } with hchange
    set after : Program := { program with
      labels := (program.labels.allocWith fun self => { self, name, function }).2
      functions := program.functions.modify function change } with hafter
    have hmodify : after.Laid (outline.modify function (·.withLabel name)) ∧
        program.Extends after := by
      refine h.modify rfl (fun ref entry hentry => ⟨entry, hentry, rfl⟩) h.free
        (by simp [hafter]) (fun other hne => by simp [hafter, Arena.get?_modify, hne])
        (fun other label block hne hlabel => ?_) (fun entry' hentry' => ?_)
        (fun routine => routine.prototype_withLabel name)
        (fun routine hnodup => Routine.nodup_labels_withLabel hnodup name)
      · obtain ⟨found, hfound, -⟩ := hlabel.entry
        refine hlabel.congr ?_ rfl
        rw [hfound]
        exact Arena.get?_alloc_of_some hfound _
      · obtain rfl := Option.some.inj (hentry.symm.trans hentry')
        exact ⟨change entry, by simp [hafter, Arena.get?_modify, hentry], rfl, rfl,
          fun hextends routine _ his => routineIs_withLabel his hfind rfl rfl hextends⟩
    refine ⟨program.labels.nextRef, after, ?_, hmodify.1, hmodify.2, rfl, fun other hne => ?_,
      change entry, ?_, ?_, rfl⟩
    · refine (Step.bind_of_ok rfl).trans ?_
      refine (Step.bind_of_ok (updateFunction_of_some ?_ _)).trans ?_
      · exact ⟨entry, hentry⟩
      · rfl
    · simp [hafter, Arena.get?_modify, hne]
    · simp [hafter, Arena.get?_modify, hentry]
    · simp [hchange]

/-- A change under one label of a function. -/
theorem routineIs_update {after : Program} {function : FunctionRef} {entry : Function}
    {routine : Routine InstructionRef} (his : program.RoutineIs function entry routine)
    {name : String} {label : LabelRef} {change : List InstructionRef → List InstructionRef}
    (hfind : entry.labelNames.find? name = some label)
    (hchained : ∀ block, (label, block) ∈ entry.labels.zip routine.blocks → block.name = name →
      after.LabelIs function label ⟨block.name, change block.statements⟩)
    (hothers : ∀ other block, other ≠ label → program.LabelIs function other block →
      after.LabelIs function other block)
    (hextends : program.Extends after) :
    after.RoutineIs function entry (routine.update name change) := by
  refine ⟨his.self, his.name, his.type.mono hextends, his.params, ?_, fun key other => ?_⟩
  · obtain ⟨hlength, hpairs⟩ := List.forall₂_iff_zip.1 his.labels
    rw [Routine.update, List.forall₂_map_right_iff]
    refine List.forall₂_iff_zip.2 ⟨hlength, fun {other block} hmem => ?_⟩
    rw [Block.update]
    split
    · next hname =>
      have := (his.labelNames name other).2 ⟨block, hmem, hname⟩
      obtain rfl : label = other := Option.some.inj (hfind.symm.trans this)
      exact hchained block hmem hname
    · next hname =>
      refine hothers other block ?_ (hpairs hmem)
      -- a label of another name is another label
      rintro rfl
      obtain ⟨named, hnamed, rfl⟩ := (his.labelNames name other).1 hfind
      obtain ⟨found, hfound, hfoundName, -⟩ := (hpairs hmem).entry
      obtain ⟨found', hfound', hfoundName', -⟩ := (hpairs hnamed).entry
      obtain rfl := Option.some.inj (hfound.symm.trans hfound')
      exact hname (hfoundName.symm.trans hfoundName')
  · rw [his.labelNames, Routine.update, List.zip_map_right]
    constructor
    · rintro ⟨block, hmem, hname⟩
      exact ⟨block.update name change, List.mem_map.2 ⟨(other, block), hmem, rfl⟩,
        (Block.name_update name change block).trans hname⟩
    · rintro ⟨block, hmem, hname⟩
      obtain ⟨⟨other', block'⟩, hmem', hequal⟩ := List.mem_map.1 hmem
      obtain ⟨rfl, rfl⟩ : other' = other ∧ block'.update name change = block := by
        simpa using hequal
      exact ⟨block', hmem', (Block.name_update name change block').symm.trans hname⟩

/-! ## Linking -/

/-- A free instruction is linked into the chain of one label of the layout. -/
theorem relinks_laid {after : Program} (h : program.Laid outline) {function : FunctionRef}
    {entry : Function} (hentry : program.functions.get? function = some entry) {name : String}
    {label : LabelRef} (hfind : entry.labelNames.find? name = some label) {ref : InstructionRef}
    {instruction : Instruction} (hinstruction : program.instructions.get? ref = some instruction)
    (hunlinked : instruction.label = none)
    {refs : List InstructionRef} (hchain : program.Chained label refs)
    (change : List InstructionRef → List InstructionRef)
    (hchained : after.Chained label (change refs)) (hinside : ref ∈ change refs)
    (hrelinks : program.Relinks label ref after) :
    after.Laid (outline.modify function (·.update name change)) ∧ program.Extends after ∧
      after.functions = program.functions := by
  obtain ⟨routine, hroutine, his⟩ := h.functions function entry hentry
  obtain ⟨block, hmem, hname⟩ := (his.labelNames name label).1 hfind
  have hblock := (List.forall₂_iff_zip.1 his.labels).2 hmem
  obtain ⟨found, hfound, hfoundName, hfunction⟩ := hblock.entry
  obtain rfl := hchain.unique hblock.chain
  have hfunctions : after.functions = program.functions := by rw [hrelinks.rest]
  -- instructions of other labels are not the linked one, which has had no label
  have hothers : ∀ function' other block', other ≠ label →
      program.LabelIs function' other block' → after.LabelIs function' other block' := by
    intro function' other block' hne hlabel
    exact hlabel.transfer (hrelinks.otherLabels other hne) fun ref' entry' hentry' hown =>
      ⟨entry', hrelinks.instruction_of_label hinstruction hunlinked hne hentry' hown, rfl, rfl, rfl⟩
  have hmodify : after.Laid (outline.modify function (·.update name change)) ∧
      program.Extends after := by
    refine h.modify (by rw [hrelinks.rest]) (fun ref' entry' hentry' => ?_)
      (fun ref' entry' hentry' hnone => ?_) (by rw [hfunctions]) (fun other _ => by rw [hfunctions])
      (fun other label' block' hne hlabel => ?_) (fun entry' hentry' => ?_) (fun _ => rfl)
      (fun routine => by simp)
    · obtain ⟨later, hlater, -, hoperation, -⟩ := hrelinks.instruction_after hentry'
      exact ⟨later, hlater, hoperation⟩
    · -- what has no label is not the linked instruction, and has had no links before
      by_cases hequal : ref' = ref
      · subst hequal
        obtain ⟨linked, hlinked, hown⟩ := hchained.label_of_mem hinside
        obtain rfl := Option.some.inj (hentry'.symm.trans hlinked)
        exact nomatch hown.symm.trans hnone
      · obtain ⟨old, hold, hlabel, hsame⟩ := hrelinks.other_before hentry' hequal
        have holdNone : old.label = none := hlabel.symm.trans hnone
        obtain rfl := hsame (by simp [holdNone])
        exact h.free ref' entry' hold hnone
    · refine hothers other label' block' ?_ hlabel
      rintro rfl
      obtain ⟨found', hfound', -, hfunction'⟩ := hlabel.entry
      obtain rfl := Option.some.inj (hfound.symm.trans hfound')
      exact hne (hfunction'.symm.trans hfunction)
    · -- the label keeps its name and function, and its chain is the changed one
      obtain rfl := Option.some.inj (hentry.symm.trans hentry')
      refine ⟨entry, by rw [hfunctions, hentry], rfl, rfl, fun hextends routine' hroutine' his' =>
        routineIs_update his' hfind (fun block' hmem' hname' => ?_) (hothers function) hextends⟩
      obtain rfl := Option.some.inj (hroutine.symm.trans hroutine')
      obtain rfl : block' = block := List.inj_on_of_nodup_map
        (h.labels routine (List.mem_of_getElem? hroutine)) (List.of_mem_zip hmem').2
        (List.of_mem_zip hmem).2 (hname'.trans hname.symm)
      obtain ⟨ends, hends, -, hendsName, hendsFunction⟩ := hrelinks.label_after hfound
      exact ⟨⟨ends, hends, hendsName.trans hfoundName, hendsFunction.trans hfunction⟩, hchained⟩
  exact ⟨hmodify.1, hmodify.2, hfunctions⟩

/-- Linking a free instruction at the end of a label of the layout. -/
theorem pushBack_laid (h : program.Laid outline) {function : FunctionRef} {entry : Function}
    (hentry : program.functions.get? function = some entry) {name : String} {label : LabelRef}
    (hfind : entry.labelNames.find? name = some label) {ref : InstructionRef}
    {instruction : Instruction} (hinstruction : program.instructions.get? ref = some instruction)
    (hunlinked : instruction.label = none) :
    Step.Yields (pushBack label ref) program fun _ after =>
      after.Laid (outline.modify function (·.push name ref)) ∧ program.Extends after ∧
        after.functions = program.functions := by
  obtain ⟨routine, hroutine, his⟩ := h.functions function entry hentry
  obtain ⟨block, hmem, -⟩ := (his.labelNames name label).1 hfind
  have hblock := (List.forall₂_iff_zip.1 his.labels).2 hmem
  have hfree := h.free ref instruction hinstruction hunlinked
  refine (pushBack_yields hblock.chain hinstruction hfree).mono fun _ after hafter => ?_
  rw [show (fun routine => Routine.push name ref routine) =
    Routine.update name (· ++ [ref]) from rfl]
  exact relinks_laid h hentry hfind hinstruction hunlinked hblock.chain (· ++ [ref]) hafter.1
    (by simp) hafter.2

/-- **Appending** a free instruction to a label of a function. -/
theorem append_yields (h : program.WellFormed outline) {function : FunctionRef} {entry : Function}
    (hentry : program.functions.get? function = some entry) (name : String)
    {ref : InstructionRef} {instruction : Instruction}
    (hinstruction : program.instructions.get? ref = some instruction)
    (hunlinked : instruction.label = none) :
    Step.Yields (append function name ref) program fun _ after =>
      after.WellFormed (outline.modify function (·.append name ref)) ∧
        program.Extends after := by
  refine (labelNamed_yields h.toLaid hentry name).bind fun label labelled hlabelled => ?_
  obtain ⟨hlaid, hextends, hinstructions, hothers, entry', hentry', hfind, hsame⟩ := hlabelled
  refine (pushBack_laid hlaid hentry' hfind (hinstructions ▸ hinstruction) hunlinked).bind
    fun _ pushed hpushed => ?_
  obtain ⟨hlaid', hextends', hfunctions⟩ := hpushed
  rw [Outline.modify_modify] at hlaid'
  have hpushedEntry : pushed.functions.get? function = some entry' := by rw [hfunctions, hentry']
  have hupdate := updateFunction_yields hlaid' hpushedEntry
    (fun entry => { entry with entry := entry.entry.or (some ref) }) id rfl rfl
    (fun routine his => ⟨his.self, his.name, his.type, his.params, his.labels, his.labelNames⟩)
    (fun _ => rfl) (fun _ => rfl)
  refine hupdate.mono fun _ after hafter => ?_
  obtain ⟨rfl, hlaid'', hextends''⟩ := hafter
  rw [Outline.modify_modify, Function.id_comp] at hlaid''
  refine ⟨h.modify hlaid'' (fun _ hfilled => Routine.append_filled hfilled name ref)
    (fun other hne => ?_) fun found hfound => ?_, (hextends.trans hextends').trans hextends''⟩
  · rw [Arena.get?_modify, if_neg hne, hfunctions, hothers other hne]
  · rw [Arena.get?_modify, if_pos rfl, hpushedEntry, Option.map_some, Option.some.injEq] at hfound
    subst hfound
    obtain ⟨routine, hroutine, -⟩ := h.functions function entry hentry
    have hfilled := h.filled routine (List.mem_of_getElem? hroutine)
    -- an entry that is there stays, and the first instruction becomes one
    rw [hroutine, Option.map_some, Option.bind_some]
    show entry'.entry.or (some ref) = (routine.append name ref).first?
    rw [Routine.first?_append hfilled, hsame, h.entered function entry hentry, hroutine,
      Option.bind_some]

/-! ## Declarations -/

/-- The functions of a name when one more is declared. -/
theorem overloadsIn_append (prototypes : List Prototype) (prototype : Prototype) (name : String) :
    overloadsIn (prototypes ++ [prototype]) name =
      overloadsIn prototypes name ++
        if prototype.name = name then [⟨prototypes.length⟩] else [] := by
  rw [overloadsIn, List.zipIdx_append, List.filter_append, List.map_append, ← overloadsIn]
  by_cases hname : prototype.name = name <;> simp [hname]

/-- What declaring a new function does. -/
theorem declareFunction_of_none {name : String} {type : TypeRef} {signature : Signature}
    (hsignature : program.signature? type = .ok (some signature))
    (hnone : program.functionOfType? name type = .ok none) :
    declareFunction name type program = .ok (program.functions.nextRef, { program with
      functions := (program.functions.allocWith fun self => { self, name, type }).2
      overloads := program.overloads.insert name
        (program.overloadsOf name ++ [program.functions.nextRef]) }) := by
  rw [declareFunction, Step.bind_of_ok (ask_of_ok hsignature)]
  refine (Step.bind_of_ok (ask_of_ok hnone)).trans ?_
  rfl

/-- What defining a new global does. -/
theorem defineGlobal_of_none {name : String} (initial : Constant)
    (hnone : program.globalNamed? name = none) :
    defineGlobal name initial program = .ok (program.globals.nextRef, { program with
      globals := (program.globals.allocWith fun self => { self, name, initial }).2
      globalNames := program.globalNames.insert name program.globals.nextRef }) := by
  rw [defineGlobal, Step.bind_of_ok (Step.get_apply program), hnone]
  rfl

/-- A new function at the end of the layout. -/
theorem declareFunction_yields (h : program.WellFormed outline) {type : TypeRef}
    {prototype : Prototype} (htype : program.PrototypeIs type prototype)
    (hnew : prototype ∉ outline.prototypes) :
    Step.Yields (declareFunction prototype.name type) program fun ref after =>
      ref = ⟨outline.routines.length⟩ ∧ after.WellFormed (outline.declare prototype) ∧
        program.Extends after ∧
        after.functions = (program.functions.allocWith fun self =>
          { self, name := prototype.name, type }).2 := by
  obtain ⟨signature, hsignature, -⟩ := htype.signature?_eq
  have hnone : program.functionOfType? prototype.name type = .ok none := by
    rw [h.functionOfType?_eq htype, List.findIdx?_eq_none_iff.2]
    · rfl
    · intro other hmem
      have hne : other ≠ prototype := fun hequal => hnew (hequal ▸ hmem)
      simpa using hne
  set entry : Function :=
    { self := program.functions.nextRef, name := prototype.name, type } with hentry
  set after : Program := { program with
    functions := (program.functions.alloc entry).2
    overloads := program.overloads.insert prototype.name
      (program.overloadsOf prototype.name ++ [program.functions.nextRef]) } with hafter
  have hrun : declareFunction prototype.name type program =
      .ok (program.functions.nextRef, after) := declareFunction_of_none hsignature hnone
  have hextends : program.Extends after :=
    ⟨fun _ _ h => h, fun _ _ h => h, fun _ entry h => ⟨entry, h, rfl⟩,
      fun _ entry h => ⟨entry, Arena.get?_alloc_of_some h _, rfl, rfl⟩,
      fun _ entry h => ⟨entry, h, rfl, rfl⟩⟩
  have hlength : program.functions.nextRef = ⟨outline.routines.length⟩ := by
    rw [Arena.nextRef, h.functionCount]
  refine ⟨_, after, hrun, hlength, ⟨⟨h.interned.congr rfl rfl, ?_, h.globalCount,
    fun ref found hfound => ?_, fun ref found hfound => ?_, fun name => ?_, h.globalNames, ?_,
    Outline.forall_mem_routines_declare h.labels List.nodup_nil, h.free⟩,
    Outline.forall_mem_routines_declare h.filled (by simp [Routine.declared]),
    fun ref found hfound => ?_⟩, hextends, rfl⟩
  · simp [hafter, Outline.declare, h.functionCount]
  · -- the new function is the last routine, and the others stand where they stood
    rcases Arena.get?_alloc_eq_some hfound with ⟨rfl, rfl⟩ | hold
    · refine ⟨.declared prototype, Outline.getElem?_routines_declare.2 (.inr ⟨by rw [hlength], rfl⟩),
        rfl, rfl, htype.mono hextends, rfl, .nil, ?_⟩
      simp [hentry, NameTable.find?]
    · obtain ⟨routine, hroutine, his⟩ := h.functions ref found hold
      exact ⟨routine, Outline.getElem?_routines_declare.2 (.inl hroutine),
        his.congr hextends rfl rfl⟩
  · obtain ⟨binding, hbinding, his⟩ := h.globals ref found hfound
    exact ⟨binding, hbinding, his.mono hextends⟩
  · -- the new function comes behind all others of its name
    rw [Outline.prototypes_declare, overloadsIn_append, ← h.overloads, overloadsOf, hafter,
      NameTable.find?_insert]
    by_cases hname : name = prototype.name
    · subst hname
      simp [hlength, Outline.prototypes]
    · rw [if_neg hname, if_neg (Ne.symm hname), List.append_nil, overloadsOf]
  · rw [Outline.prototypes_declare]
    refine List.nodup_append.2 ⟨h.prototypes, List.nodup_singleton _, ?_⟩
    rintro other hother last hlast rfl
    exact hnew (List.mem_singleton.1 hlast ▸ hother)
  · rcases Arena.get?_alloc_eq_some hfound with ⟨rfl, rfl⟩ | hold
    · rw [Outline.getElem?_routines_declare.2 (.inr ⟨by rw [hlength], rfl⟩)]
      rfl
    · obtain ⟨routine, hroutine, -⟩ := h.functions ref found hold
      rw [Outline.getElem?_routines_declare.2 (.inl hroutine), ← hroutine]
      exact h.entered ref found hold

/-- A new global at the end of the layout. -/
theorem defineGlobal_yields (h : program.WellFormed outline) {name : String}
    {type : TypeRef} {literal : Literal} (htype : program.typeName type = .ok literal.typeName)
    (hnew : program.globalNamed? name = none) :
    Step.Yields (defineGlobal name ⟨type, literal⟩) program fun _ after =>
      after.WellFormed (outline.define name literal) ∧ program.Extends after := by
  set entry : Global :=
    { self := program.globals.nextRef, name, initial := ⟨type, literal⟩ } with hentry
  set after : Program := { program with
    globals := (program.globals.alloc entry).2
    globalNames := program.globalNames.insert name program.globals.nextRef } with hafter
  have hrun : defineGlobal name ⟨type, literal⟩ program =
      .ok (program.globals.nextRef, after) := defineGlobal_of_none _ hnew
  have hextends : program.Extends after :=
    ⟨fun _ _ h => h, fun _ _ h => h, fun _ entry h => ⟨entry, h, rfl⟩,
      fun _ entry h => ⟨entry, h, rfl, rfl⟩,
      fun _ entry h => ⟨entry, Arena.get?_alloc_of_some h _, rfl, rfl⟩⟩
  have hlength : program.globals.nextRef = ⟨outline.globals.length⟩ := by
    rw [Arena.nextRef, h.globalCount]
  refine ⟨_, after, hrun, ⟨⟨h.interned.congr rfl rfl, h.functionCount, ?_,
    fun ref found hfound => ?_, fun ref found hfound => ?_, h.overloads, fun key ref => ?_,
    h.prototypes, h.labels, h.free⟩, h.filled, h.entered⟩, hextends⟩
  · simp [hafter, Outline.define, h.globalCount]
  · obtain ⟨routine, hroutine, his⟩ := h.functions ref found hfound
    exact ⟨routine, hroutine, his.congr hextends rfl rfl⟩
  · rcases Arena.get?_alloc_eq_some hfound with ⟨rfl, rfl⟩ | hold
    · refine ⟨(name, literal), ?_, rfl, rfl, rfl, hextends.typeName htype⟩
      rw [hlength, Outline.define]
      simp
    · obtain ⟨binding, hbinding, his⟩ := h.globals ref found hold
      refine ⟨binding, ?_, his.mono hextends⟩
      rw [Outline.define, List.getElem?_append_left (List.getElem?_eq_some_iff.1 hbinding).1,
        hbinding]
  · -- old names are found where they were, and the new one at the new place
    have hplace : program.globals.nextRef = ref ↔ ref.index = outline.globals.length := by
      rw [hlength]
      exact ⟨fun hequal => hequal ▸ rfl, fun hindex => Ref.eq_of_index hindex.symm⟩
    rw [globalNamed?, hafter, NameTable.find?_insert_eq_some hnew, ← globalNamed?, h.globalNames,
      hplace, Outline.define]
    simp only [getElem?_concat_eq_some, exists_or]
    refine or_congr_right ⟨?_, ?_⟩
    · rintro ⟨rfl, hindex⟩
      exact ⟨literal, hindex, rfl⟩
    · rintro ⟨literal', hindex, hbinding⟩
      exact ⟨(congrArg Prod.fst hbinding).symm, hindex⟩

/-! ## Types, values and instructions -/

/-- A type that has a name has the name of a tree. -/
theorem exists_tree (h : program.Interned) {type : TypeRef} {name : String}
    (hname : program.typeName type = .ok name) : ∃ tree : TypeTree, tree.name = name := by
  obtain ⟨entry, hentry, rfl⟩ := typeName_eq_ok.1 hname
  obtain ⟨tree, htree, -⟩ := h.rendered type entry hentry
  exact ⟨tree, htree.symm⟩

/-- Types that have names have the names of trees. -/
theorem exists_trees (h : program.Interned) {types : List TypeRef} {names : List String}
    (hnames : List.Forall₂ (fun type name => program.typeName type = .ok name) types names) :
    ∃ trees : List TypeTree, trees.map TypeTree.name = names := by
  induction hnames with
  | nil => exact ⟨[], rfl⟩
  | cons hname _ ih =>
    obtain ⟨tree, rfl⟩ := exists_tree h hname
    obtain ⟨trees, rfl⟩ := ih
    exact ⟨tree :: trees, rfl⟩

/-- The type that a prototype tells of. -/
theorem functionType_prototype (h : program.Interned) {signature : Signature}
    {prototype : Prototype} (hresult : program.typeName signature.result = .ok prototype.result)
    (hparams : List.Forall₂ (fun param name => program.typeName param = .ok name)
      signature.params prototype.params)
    (hvariadic : signature.variadic = prototype.variadic) :
    Step.Yields (functionType signature) program fun ref after =>
      program.Grows after ∧ after.PrototypeIs ref prototype := by
  obtain ⟨result, htree⟩ := exists_tree h hresult
  obtain ⟨params, htrees⟩ := exists_trees h hparams
  have hshape : program.HasShape (.function signature)
      (.function result params signature.variadic) := by
    refine ⟨rfl, htree ▸ hresult, ?_⟩
    rw [← htrees, List.forall₂_map_right_iff] at hparams
    exact hparams
  refine (functionType_yields h hshape).mono fun ref after hafter => ?_
  obtain ⟨hadds, hinterned, hentry⟩ := hafter
  have hgrows := Grows.of_addsTypes hadds hinterned
  refine ⟨hgrows, signature, ?_, hadds.typeName hresult, hparams.imp fun _ _ => hadds.typeName,
    hvariadic⟩
  rw [hentry, Prototype.type, TypeTree.name, htree, htrees, hvariadic]

/-- Creating a value. -/
theorem addValue_yields (program : Program) (value : Value) :
    Step.Yields (addValue value) program fun ref after =>
      program.Grows after ∧ after.values.get? ref = some value := by
  refine ⟨_, _, rfl, ⟨rfl, fun _ _ h => h, fun _ _ h => Arena.get?_alloc_of_some h _,
    fun _ entry h => ⟨entry.result, h⟩, fun _ entry h => .inl ⟨entry, h⟩,
    fun h => h.congr rfl rfl⟩, Arena.get?_alloc_nextRef _ _⟩

/-- Creating an instruction. -/
theorem addInstruction_yields (program : Program) (operation : Operation) :
    Step.Yields (addInstruction operation) program fun ref after =>
      program.Grows after ∧ after.instructions.get? ref = some { self := ref, operation } := by
  refine ⟨_, _, rfl, ⟨rfl, fun _ _ h => h, fun _ _ h => h,
    fun _ entry h => ⟨entry.result, Arena.get?_alloc_of_some h _⟩, fun ref entry h => ?_,
    fun h => h.congr rfl rfl⟩, Arena.get?_alloc_nextRef _ _⟩
  rcases Arena.get?_alloc_eq_some h with ⟨-, rfl⟩ | hold
  · exact .inr ⟨rfl, rfl, rfl⟩
  · exact .inl ⟨entry, hold⟩

/-- The value of an instruction. -/
theorem resultValue_yields {program : Program} {ref : InstructionRef} {entry : Instruction}
    (hentry : program.instructions.get? ref = some entry) :
    Step.Yields (resultValue ref) program fun value after =>
      program.Grows after ∧
        (entry.result = none → after.values.get? value = some (.result ref)) := by
  rw [resultValue]
  unfold Step.Yields
  rw [Step.bind_of_ok (ask_of_ok (found_eq_ok.2 hentry))]
  cases hresult : entry.result with
  | some value => exact ⟨value, program, rfl, .refl program, fun hnone => nomatch hnone⟩
  | none =>
    obtain ⟨value, added, hrun, hgrows, hvalue⟩ := addValue_yields program (.result ref)
    obtain ⟨result, hadded⟩ := hgrows.instructions ref entry hentry
    refine ⟨value, { added with instructions := added.instructions.modify ref fun instruction =>
      { instruction with result := some value } }, ?_, ?_, fun _ => hvalue⟩
    · refine (Step.bind_of_ok hrun).trans ?_
      exact Step.bind_of_ok (updateInstruction_of_some ⟨_, hadded⟩ _)
    · refine hgrows.trans ⟨rfl, fun _ _ h => h, fun _ _ h => h, fun other entry' hother => ?_,
        fun other entry' hother => ?_, fun h => h.congr rfl rfl⟩
      · obtain ⟨later, hlater, rfl | ⟨-, rfl⟩⟩ := Arena.get?_modify_of_some hother ref _
        · exact ⟨later.result, hlater⟩
        · exact ⟨some value, hlater⟩
      · obtain ⟨old, hold, -⟩ := Arena.get?_modify_eq_some hother
        exact .inl ⟨old, hold⟩

/-- The value of a global itself changes nothing in the layout. -/
theorem globalValue_yields (h : program.WellFormed outline) {ref : GlobalRef} {entry : Global}
    (hentry : program.globals.get? ref = some entry) :
    Step.Yields (globalValue ref) program fun _ after =>
      after.WellFormed outline ∧ program.Extends after := by
  rw [globalValue]
  unfold Step.Yields
  rw [Step.bind_of_ok (ask_of_ok (found_eq_ok.2 hentry))]
  cases hresult : entry.result with
  | some value => exact ⟨value, program, rfl, h, .refl program⟩
  | none =>
    obtain ⟨value, added, hrun, hgrows, -⟩ := addValue_yields program (.global ref)
    have hadded := h.grows hgrows
    set change : Global → Global := fun global => { global with result := some value }
    set after : Program := { added with globals := added.globals.modify ref change } with hafter
    have hupdate : updateGlobal ref change added = .ok ((), after) :=
      updateGlobal_of_some ⟨entry, by rw [hgrows.globals, hentry]⟩ change
    -- only the value that one global remembers has changed, and no layout tells of it
    have hglobals : ∀ other found, after.globals.get? other = some found →
        ∃ old, added.globals.get? other = some old ∧ found.self = old.self ∧
          found.name = old.name ∧ found.initial = old.initial := by
      intro other found hfound
      obtain ⟨old, hold, rfl | ⟨-, rfl⟩⟩ := Arena.get?_modify_eq_some hfound <;>
        exact ⟨_, hold, rfl, rfl, rfl⟩
    have hextends : added.Extends after := by
      refine ⟨fun _ _ h => h, fun _ _ h => h, fun _ entry h => ⟨entry, h, rfl⟩,
        fun _ entry h => ⟨entry, h, rfl, rfl⟩, fun other found hfound => ?_⟩
      obtain ⟨later, hlater, rfl | ⟨-, rfl⟩⟩ := Arena.get?_modify_of_some hfound ref change <;>
        exact ⟨_, hlater, rfl, rfl⟩
    refine ⟨value, after, ?_, ⟨⟨hadded.interned.congr rfl rfl, hadded.functionCount, ?_,
      fun ref found hfound => ?_, fun other found hfound => ?_, hadded.overloads,
      hadded.globalNames, hadded.prototypes, hadded.labels, hadded.free⟩, hadded.filled,
      hadded.entered⟩, hgrows.toExtends.trans hextends⟩
    · exact (Step.bind_of_ok hrun).trans (Step.bind_of_ok hupdate)
    · rw [hafter, Arena.size_modify, hadded.globalCount]
    · obtain ⟨routine, hroutine, his⟩ := hadded.functions ref found hfound
      exact ⟨routine, hroutine, his.congr hextends rfl rfl⟩
    · obtain ⟨old, hold, hself, hname, hinitial⟩ := hglobals other found hfound
      obtain ⟨binding, hbinding, his⟩ := hadded.globals other old hold
      exact ⟨binding, hbinding, hself.trans his.self, hname.trans his.name,
        (congrArg Constant.literal hinitial).trans his.literal,
        hextends.typeName ((congrArg Constant.type hinitial) ▸ his.type)⟩

end Edit

end ChainIR
