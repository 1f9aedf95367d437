import Mathlib
import ChainIR.Proofs.Outline.Depiction

/-! # Outlines step by step

Edits of a program that an outline shows lead to programs that the changed outline shows. What
edits ask of a program on the way, a function of a type, the meaning of a call or a global, is
answered by its outline. -/

namespace ChainIR

/-! ## Related outlines -/

/-- What stands in the second of two related lists is related to something in the first. -/
theorem exists_of_forall₂ {α β : Type} {related : α → β → Prop} {left : List α} {right : List β}
    (h : List.Forall₂ related left right) {item : β} (hmem : item ∈ right) :
    ∃ other ∈ left, related other item := by
  induction h with
  | nil => exact absurd hmem List.not_mem_nil
  | @cons first first' _ _ hfirst _ ih =>
    rcases List.mem_cons.1 hmem with rfl | hmem
    · exact ⟨first, .head _, hfirst⟩
    · obtain ⟨other, hother, hrelated⟩ := ih hmem
      exact ⟨other, .tail _ hother, hrelated⟩

namespace Routine

variable {σ τ : Type} {related : σ → τ → Prop} {left : Routine σ} {right : Routine τ}

/-- Related functions have labels of the same names. -/
theorem Rel.labels_eq (h : Rel related left right) : left.labels = right.labels := by
  have := h.blocks.imp fun _ _ hblock => hblock.1
  rw [labels, labels, ← List.forall₂_eq_eq_eq, List.forall₂_map_left_iff,
    List.forall₂_map_right_iff]
  exact this

/-- Appending related statements to related functions. -/
theorem Rel.append (h : Rel related left right) (name : String) {statement : σ} {other : τ}
    (hstatement : related statement other) :
    Rel related (left.append name statement) (right.append name other) := by
  have hlabelled : List.Forall₂ (Block.Rel related) (left.withLabel name).blocks
      (right.withLabel name).blocks := by
    rw [withLabel, withLabel, h.labels_eq]
    split
    · exact h.blocks
    · exact List.rel_append h.blocks (.cons ⟨rfl, .nil⟩ .nil)
  have hprototype : (left.withLabel name).prototype = (right.withLabel name).prototype := by
    simpa using h.prototype
  have hparams : (left.withLabel name).params = (right.withLabel name).params := by
    rw [withLabel, withLabel, h.labels_eq]
    split <;> exact h.params
  refine ⟨hprototype, hparams, ?_⟩
  rw [Routine.append, Routine.append, push, push]
  refine List.forall₂_map_left_iff.2 (List.forall₂_map_right_iff.2 (hlabelled.imp ?_))
  rintro block other' ⟨hname, hstatements⟩
  rw [Block.push, Block.push, hname]
  split
  · exact ⟨rfl, List.rel_append hstatements (.cons hstatement .nil)⟩
  · exact ⟨hname, hstatements⟩

/-- Naming the parameters of related functions. -/
theorem Rel.withParams (h : Rel related left right) (params : List String) :
    Rel related (left.withParams params) (right.withParams params) :=
  ⟨h.prototype, rfl, h.blocks⟩

/-- Statements that are related in one way may be related in another. -/
theorem Rel.imp {weaker : σ → τ → Prop} (h : Rel related left right)
    (himp : ∀ statement other, related statement other → weaker statement other) :
    Rel weaker left right :=
  ⟨h.prototype, h.params, h.blocks.imp fun _ _ hblock => ⟨hblock.1, hblock.2.imp himp⟩⟩

end Routine

namespace Outline

variable {σ τ : Type} {related : σ → τ → Prop} {left : Outline σ} {right : Outline τ}

/-- Related outlines have the same prototypes. -/
theorem Rel.prototypes_eq (h : Rel related left right) : left.prototypes = right.prototypes := by
  have := h.routines.imp fun _ _ hroutine => hroutine.prototype
  rw [prototypes, prototypes, ← List.forall₂_eq_eq_eq, List.forall₂_map_left_iff,
    List.forall₂_map_right_iff]
  exact this

/-- Statements that are related in one way may be related in another. -/
theorem Rel.imp {weaker : σ → τ → Prop} (h : Rel related left right)
    (himp : ∀ statement other, related statement other → weaker statement other) :
    Rel weaker left right :=
  ⟨h.globals, h.routines.imp fun _ _ hroutine => hroutine.imp himp⟩

/-- Related changes of one function. -/
theorem Rel.modify (h : Rel related left right) (function : FunctionRef)
    {change : Routine σ → Routine σ} {change' : Routine τ → Routine τ}
    (hchange : ∀ routine routine', Routine.Rel related routine routine' →
      Routine.Rel related (change routine) (change' routine')) :
    Rel related (left.modify function change) (right.modify function change') := by
  refine ⟨h.globals, ?_⟩
  obtain ⟨-, hroutines⟩ := h
  rw [Outline.modify, Outline.modify]
  generalize function.index = index
  generalize left.routines = routines, right.routines = routines' at hroutines
  induction hroutines generalizing index with
  | nil => simp
  | cons hfirst hrest ih =>
    cases index with
    | zero => exact .cons (hchange _ _ hfirst) hrest
    | succ index => exact .cons hfirst (ih index)

/-- Declaring a function in related outlines. -/
theorem Rel.declare (h : Rel related left right) (prototype : Prototype) :
    Rel related (left.declare prototype) (right.declare prototype) :=
  ⟨h.globals, List.rel_append h.routines (.cons ⟨rfl, rfl, .nil⟩ .nil)⟩

/-- Defining a global in related outlines. -/
theorem Rel.define (h : Rel related left right) (name : String) (literal : Literal) :
    Rel related (left.define name literal) (right.define name literal) :=
  ⟨by rw [Outline.define, Outline.define, h.globals], h.routines⟩

end Outline

namespace Program

variable {program after : Program} {outline : Outline (Statement Callee)}

/-! ## Programs and their outlines -/

/-- A program is what an outline says, however it is laid out. -/
def ShownBy (program : Program) (outline : Outline (Statement Callee)) : Prop :=
  ∃ layout, program.Shows layout outline

namespace ShownBy

/-- The text of a program is that of the outline that shows it. -/
theorem text_eq (h : program.ShownBy outline) :
    program.text = .ok (outline.map Statement.written).text := by
  obtain ⟨layout, h⟩ := h
  exact h.text_eq

/-- A program that an outline shows has its types interned. -/
theorem interned (h : program.ShownBy outline) : program.Interned := by
  obtain ⟨layout, h⟩ := h
  exact h.interned

/-- No outline shows that a program grows. -/
theorem grows (h : program.ShownBy outline) (hgrows : program.Grows after) :
    after.ShownBy outline := by
  obtain ⟨layout, h⟩ := h
  exact ⟨layout, h.toWellFormed.grows hgrows,
    h.statements.imp fun _ _ his => his.mono hgrows.toExtends⟩

/-- No two functions have one prototype. -/
theorem prototypes_nodup (h : program.ShownBy outline) : outline.prototypes.Nodup := by
  obtain ⟨layout, h⟩ := h
  exact h.statements.prototypes_eq ▸ h.prototypes

/-- No two labels of a function have one name. -/
theorem labels_nodup (h : program.ShownBy outline) :
    ∀ routine ∈ outline.routines, routine.labels.Nodup := by
  obtain ⟨layout, h⟩ := h
  intro routine hmem
  obtain ⟨laid, hlaid, hrel⟩ := exists_of_forall₂ h.statements.routines hmem
  exact hrel.labels_eq ▸ h.labels laid hlaid

/-- No block is empty. -/
theorem filled (h : program.ShownBy outline) : outline.Filled := by
  obtain ⟨layout, h⟩ := h
  intro routine hmem block hblock
  obtain ⟨laid, hlaid, hrel⟩ := exists_of_forall₂ h.statements.routines hmem
  obtain ⟨block', hblock', -, hstatements⟩ := exists_of_forall₂ hrel.blocks hblock
  have hne := h.filled laid hlaid block' hblock'
  rwa [← List.length_pos_iff, ← hstatements.length_eq, List.length_pos_iff]

/-- A call means what the prototypes say. -/
theorem resolve?_eq (h : program.ShownBy outline) (name : String) {types : List TypeRef}
    {names : List String}
    (htypes : List.Forall₂ (fun type name => program.typeName type = .ok name) types names) :
    program.resolve? name types = .ok (resolveIn outline.prototypes name names) := by
  obtain ⟨layout, h⟩ := h
  rw [h.resolve?_eq name htypes, h.statements.prototypes_eq]

/-- A function is found by its prototype. -/
theorem functionOfType?_eq (h : program.ShownBy outline) {type : TypeRef} {prototype : Prototype}
    (htype : program.PrototypeIs type prototype) :
    program.functionOfType? prototype.name type =
      .ok ((outline.prototypes.findIdx? (· == prototype)).map Ref.mk) := by
  obtain ⟨layout, h⟩ := h
  rw [h.functionOfType?_eq htype, h.statements.prototypes_eq]

/-- What is shown of a function is in the program. -/
theorem function_of_routine (h : program.ShownBy outline) {ref : FunctionRef}
    {routine : Routine (Statement Callee)} (hroutine : outline.routines[ref.index]? = some routine) :
    ∃ entry, program.functions.get? ref = some entry ∧
      entry.name = routine.prototype.name ∧ entry.params = routine.params ∧
      entry.entry.isSome = !routine.blocks.isEmpty := by
  obtain ⟨layout, h⟩ := h
  have hlt : ref.index < program.functions.size := by
    rw [h.functionCount, h.statements.routines.length_eq]
    exact (List.getElem?_eq_some_iff.1 hroutine).1
  obtain ⟨entry, hentry⟩ :=
    Option.isSome_iff_exists.1 ((Arena.get?_isSome_iff program.functions ref).2 hlt)
  obtain ⟨laid, shown, -, hshown, his, hrel⟩ := h.routine_of_function hentry
  obtain rfl := Option.some.inj (hroutine.symm.trans hshown)
  exact ⟨entry, hentry, by rw [his.name, hrel.prototype], by rw [his.params, hrel.params],
    (h.headerWords_eq hentry hroutine).1⟩

/-- A name has a global exactly when the outline has one. -/
theorem globalNamed?_eq_none (h : program.ShownBy outline) (name : String) :
    program.globalNamed? name = none ↔ name ∉ outline.globals.map Prod.fst := by
  obtain ⟨layout, h⟩ := h
  rw [← Option.not_isSome_iff_eq_none, Option.isSome_iff_exists, not_iff_not]
  constructor
  · rintro ⟨ref, href⟩
    obtain ⟨literal, hliteral⟩ := (h.globalNames name ref).1 href
    exact List.mem_map.2 ⟨_, List.mem_of_getElem? (h.statements.globals ▸ hliteral), rfl⟩
  · rintro hmem
    obtain ⟨⟨name', literal⟩, hbinding, rfl⟩ := List.mem_map.1 hmem
    obtain ⟨index, hindex⟩ := List.getElem?_of_mem hbinding
    exact ⟨⟨index⟩, (h.globalNames name' ⟨index⟩).2 ⟨literal, h.statements.globals ▸ hindex⟩⟩

/-- What the table finds is a global of the outline. -/
theorem global_of_named (h : program.ShownBy outline) {name : String} {ref : GlobalRef}
    (hnamed : program.globalNamed? name = some ref) :
    ∃ entry literal, program.globals.get? ref = some entry ∧ entry.name = name ∧
      (name, literal) ∈ outline.globals ∧
      program.typeName entry.initial.type = .ok literal.typeName := by
  obtain ⟨layout, h⟩ := h
  obtain ⟨literal, hliteral⟩ := (h.globalNames name ref).1 hnamed
  have hlt : ref.index < program.globals.size := by
    rw [h.globalCount]
    exact (List.getElem?_eq_some_iff.1 hliteral).1
  obtain ⟨entry, hentry⟩ :=
    Option.isSome_iff_exists.1 ((Arena.get?_isSome_iff program.globals ref).2 hlt)
  obtain ⟨binding, hbinding, his⟩ := h.globals ref entry hentry
  obtain rfl := Option.some.inj (hliteral.symm.trans hbinding)
  exact ⟨entry, literal, hentry, his.name,
    h.statements.globals ▸ List.mem_of_getElem? hliteral, his.type⟩

/-- A global of the outline is found by its name. -/
theorem exists_global (h : program.ShownBy outline) {name type : String}
    (hknown : ∃ literal : Literal, (name, literal) ∈ outline.globals ∧ literal.typeName = type) :
    ∃ ref entry, program.globalNamed? name = some ref ∧ program.globals.get? ref = some entry ∧
      entry.name = name ∧ program.typeName entry.initial.type = .ok type := by
  obtain ⟨layout, h⟩ := h
  obtain ⟨literal, hmem, rfl⟩ := hknown
  obtain ⟨index, hindex⟩ := List.getElem?_of_mem hmem
  rw [← h.statements.globals] at hindex
  have hlt : index < program.globals.size := by
    rw [h.globalCount]
    exact (List.getElem?_eq_some_iff.1 hindex).1
  obtain ⟨entry, hentry⟩ :=
    Option.isSome_iff_exists.1 ((Arena.get?_isSome_iff program.globals ⟨index⟩).2 hlt)
  obtain ⟨binding, hbinding, his⟩ := h.globals ⟨index⟩ entry hentry
  obtain rfl := Option.some.inj (hindex.symm.trans hbinding)
  exact ⟨⟨index⟩, entry, (h.globalNames name ⟨index⟩).2 ⟨literal, hindex⟩, hentry, his.name,
    his.type⟩

/-- Appending an instruction appends its statement. -/
theorem append_yields (h : program.ShownBy outline) {function : FunctionRef}
    (hfunction : function.index < outline.routines.length) (name : String) {ref : InstructionRef}
    {instruction : Instruction} (hinstruction : program.instructions.get? ref = some instruction)
    (hunlinked : instruction.label = none) {statement : Statement Callee}
    (hstatement : program.StatementIs ref statement) :
    Step.Yields (Edit.append function name ref) program fun _ after =>
      after.ShownBy (outline.modify function (·.append name statement)) ∧
        program.Extends after := by
  obtain ⟨entry, hentry, -⟩ := h.function_of_routine (List.getElem?_eq_getElem hfunction)
  obtain ⟨layout, h⟩ := h
  refine (Edit.append_yields h.toWellFormed hentry name hinstruction hunlinked).mono
    fun _ after hafter => ?_
  obtain ⟨hwellFormed, hextends⟩ := hafter
  have hrel := h.statements.imp fun _ _ his => StatementIs.mono hextends his
  exact ⟨⟨_, hwellFormed, hrel.modify function fun _ _ hroutine =>
    hroutine.append name (hstatement.mono hextends)⟩, hextends⟩

/-- Naming the parameters of a function. -/
theorem setParams_yields (h : program.ShownBy outline) {function : FunctionRef}
    (hfunction : function.index < outline.routines.length) (params : List String) :
    Step.Yields (Edit.setParams function params) program fun _ after =>
      after.ShownBy (outline.modify function (·.withParams params)) ∧ program.Extends after := by
  obtain ⟨entry, hentry, -⟩ := h.function_of_routine (List.getElem?_eq_getElem hfunction)
  obtain ⟨layout, h⟩ := h
  refine (Edit.setParams_yields h.toWellFormed hentry params).mono fun _ after hafter => ?_
  obtain ⟨hwellFormed, hextends, -⟩ := hafter
  have hrel := h.statements.imp fun _ _ his => StatementIs.mono hextends his
  exact ⟨⟨_, hwellFormed, hrel.modify function fun _ _ hroutine => hroutine.withParams params⟩,
    hextends⟩

/-- Declaring a function. -/
theorem declareFunction_yields (h : program.ShownBy outline) {type : TypeRef}
    {prototype : Prototype} (htype : program.PrototypeIs type prototype)
    (hnew : prototype ∉ outline.prototypes) :
    Step.Yields (Edit.declareFunction prototype.name type) program fun ref after =>
      ref = ⟨outline.routines.length⟩ ∧ after.ShownBy (outline.declare prototype) ∧
        program.Extends after := by
  obtain ⟨layout, h⟩ := h
  rw [← h.statements.prototypes_eq] at hnew
  refine (Edit.declareFunction_yields h.toWellFormed htype hnew).mono fun ref after hafter => ?_
  obtain ⟨href, hwellFormed, hextends, -⟩ := hafter
  have hrel := h.statements.imp fun _ _ his => StatementIs.mono hextends his
  exact ⟨href.trans (by rw [h.statements.routines.length_eq]),
    ⟨_, hwellFormed, hrel.declare prototype⟩, hextends⟩

/-- Defining a global. -/
theorem defineGlobal_yields (h : program.ShownBy outline) {name : String} {type : TypeRef}
    {literal : Literal} (htype : program.typeName type = .ok literal.typeName)
    (hnew : program.globalNamed? name = none) :
    Step.Yields (Edit.defineGlobal name ⟨type, literal⟩) program fun _ after =>
      after.ShownBy (outline.define name literal) ∧ program.Extends after := by
  obtain ⟨layout, h⟩ := h
  refine (Edit.defineGlobal_yields h.toWellFormed htype hnew).mono fun _ after hafter => ?_
  obtain ⟨hwellFormed, hextends⟩ := hafter
  have hrel := h.statements.imp fun _ _ his => StatementIs.mono hextends his
  exact ⟨⟨_, hwellFormed, hrel.define name literal⟩, hextends⟩

end ShownBy

end Program

end ChainIR
