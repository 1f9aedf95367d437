import Mathlib
import ChainIR.Proofs.Links

/-! # Programs that requests have built

Besides its layout, a program that requests have built (`Program.Built`) has chains for all of its
labels, every label belongs to a function that finds it by its name, and every constant has the
type of its literal. Whatever change is made of such a program, it stays one
(`Program.Built.change`), so all programs that requests have built are laid out in some way
(`Request.built_of_runAll`). -/

namespace ChainIR

/-! ## Blocks of functions -/

namespace Outline

variable {σ : Type}

/-- The blocks of a function, none if there is no such function. -/
def blocksAt (outline : Outline σ) (function : FunctionRef) : List (Block σ) :=
  (outline.routines[function.index]?.map Routine.blocks).getD []

/-- A function that is declared has no blocks. -/
theorem blocksAt_declare (outline : Outline σ) (prototype : Prototype) (function : FunctionRef) :
    (outline.declare prototype).blocksAt function = outline.blocksAt function := by
  rw [blocksAt, blocksAt, declare, List.getElem?_append]
  split
  · rfl
  · next hout =>
    rw [List.getElem?_eq_none (Nat.not_lt.1 hout)]
    cases hlast : [Routine.declared prototype][function.index - outline.routines.length]? with
    | none => rfl
    | some routine =>
      obtain rfl : routine = .declared prototype := by
        simpa using List.mem_of_getElem? hlast
      rfl

/-- Blocks stay if a function changes, but not in its blocks. -/
theorem blocksAt_modify_of_blocks_eq (outline : Outline σ) (function : FunctionRef)
    {change : Routine σ → Routine σ} (h : ∀ routine, (change routine).blocks = routine.blocks)
    (other : FunctionRef) :
    (outline.modify function change).blocksAt other = outline.blocksAt other := by
  rw [blocksAt, blocksAt, getElem?_routines_modify]
  split
  · cases outline.routines[other.index]? with
    | none => rfl
    | some routine => exact h routine
  · rfl

end Outline

namespace Program

/-! ## Labels and their functions -/

/-- Every label is found by its name in its function. -/
def LabelsOwned (program : Program) : Prop :=
  ∀ label found, program.labels.get? label = some found →
    ∃ entry, program.functions.get? found.function = some entry ∧
      entry.labelNames.find? found.name = some label

/-- A program as requests leave it. -/
structure Built (program : Program) (layout : Outline InstructionRef) : Prop
    extends program.WellFormed layout where
  /-- The builtin functions stand in front. -/
  builtins : builtinPrototypes <+: layout.prototypes
  /-- There are chains for all labels. -/
  links : ∃ chains, program.Links chains
  /-- Every label belongs to a function. -/
  owned : program.LabelsOwned
  /-- Every constant has the type of its literal. -/
  constants : program.ConstantsTyped

namespace LabelsOwned

variable {program after : Program}

/-- Labels stay owned if they change in their ends alone, and if functions find all labels that
they have found. -/
theorem mono (h : program.LabelsOwned)
    (hlabels : ∀ label found, after.labels.get? label = some found →
      ∃ old, program.labels.get? label = some old ∧ found.name = old.name ∧
        found.function = old.function)
    (hfunctions : ∀ ref entry, program.functions.get? ref = some entry →
      ∃ entry', after.functions.get? ref = some entry' ∧
        entry'.labelNames = entry.labelNames) : after.LabelsOwned := by
  intro label found hfound
  obtain ⟨old, hold, hname, hfunction⟩ := hlabels label found hfound
  obtain ⟨entry, hentry, hfind⟩ := h label old hold
  obtain ⟨entry', hentry', hnames⟩ := hfunctions _ entry hentry
  rw [← hfunction] at hentry'
  rw [← hname] at hfind
  exact ⟨entry', hentry', by rw [hnames, hfind]⟩

/-- Labels stay owned if they stay and functions find all labels that they have found. -/
theorem of_labels_eq (h : program.LabelsOwned) (hlabels : after.labels = program.labels)
    (hfunctions : ∀ ref entry, program.functions.get? ref = some entry →
      ∃ entry', after.functions.get? ref = some entry' ∧
        entry'.labelNames = entry.labelNames) : after.LabelsOwned :=
  h.mono (fun _ found hfound => ⟨found, hlabels ▸ hfound, rfl, rfl⟩) hfunctions

/-- Labels stay owned if a function changes, but not in the labels that it finds. -/
theorem modify (h : program.LabelsOwned) (function : FunctionRef) {change : Function → Function}
    (hchange : ∀ entry, (change entry).labelNames = entry.labelNames) :
    LabelsOwned { program with functions := program.functions.modify function change } := by
  refine h.of_labels_eq rfl fun ref entry hentry => ?_
  obtain ⟨later, hlater, rfl | ⟨-, rfl⟩⟩ := Arena.get?_modify_of_some hentry function change
  · exact ⟨later, hlater, rfl⟩
  · exact ⟨change entry, hlater, hchange entry⟩

/-- Linking leaves all labels owned. -/
theorem relinks (h : program.LabelsOwned) {label : LabelRef} {ref : InstructionRef}
    (hrelinks : program.Relinks label ref after) : after.LabelsOwned := by
  refine h.mono (fun label found hfound => ?_) fun ref entry hentry => ⟨entry, ?_, rfl⟩
  · obtain ⟨old, hold, -, hname, hfunction⟩ := hrelinks.label_before hfound
    exact ⟨old, hold, hname, hfunction⟩
  · rw [hrelinks.rest]
    exact hentry

/-- A new label belongs to the function that it is made for. -/
theorem addLabel (h : program.LabelsOwned) {function : FunctionRef} {name : String}
    {entry : Function} (hentry : program.functions.get? function = some entry)
    (hnew : entry.labelNames.find? name = none) : LabelsOwned { program with
      labels := (program.labels.allocWith fun self => { self, name, function }).2
      functions := program.functions.modify function fun entry => { entry with
        labels := entry.labels ++ [program.labels.nextRef]
        labelNames := entry.labelNames.insert name program.labels.nextRef } } := by
  intro label found hfound
  rcases Arena.get?_alloc_eq_some hfound with ⟨rfl, rfl⟩ | hold
  · refine ⟨_, by rw [Arena.get?_modify, if_pos rfl, hentry, Option.map_some], ?_⟩
    rw [NameTable.find?_insert, if_pos rfl]
  · obtain ⟨owner, howner, hfind⟩ := h label found hold
    -- an old label of the same function has another name, so it is still found
    by_cases hsame : found.function = function
    · obtain rfl : owner = entry := by
        rw [hsame, hentry] at howner
        exact (Option.some.inj howner).symm
      have hname : found.name ≠ name := by
        rintro hequal
        rw [hequal, hnew] at hfind
        exact absurd hfind (by simp)
      refine ⟨_, by rw [Arena.get?_modify, if_pos hsame, hentry, Option.map_some], ?_⟩
      rw [NameTable.find?_insert, if_neg hname, hfind]
    · exact ⟨owner, by rw [Arena.get?_modify, if_neg hsame, howner], hfind⟩

end LabelsOwned

/-- What takes and returns something is a function type. -/
theorem signature?_eq_some {program : Program} {type : TypeRef} {signature : Signature}
    (h : program.signature? type = .ok (some signature)) :
    ∃ name, program.types.get? type = some ⟨name, .function signature⟩ := by
  obtain ⟨⟨name, shape⟩, hentry, h⟩ := query_bind_eq_ok.1 h
  cases shape with
  | function other =>
    obtain rfl : other = signature := Option.some.inj (Except.ok.inj h)
    exact ⟨name, found_eq_ok.1 hentry⟩
  | void | num | chr | str | array => exact absurd (Except.ok.inj h) (by simp)

/-- A function type tells of a prototype. -/
theorem Interned.exists_prototype {program : Program} (h : program.Interned) {type : TypeRef}
    {signature : Signature} (hsignature : program.signature? type = .ok (some signature))
    (name : String) : ∃ prototype : Prototype, prototype.name = name ∧
      program.PrototypeIs type prototype := by
  obtain ⟨typeName, hentry⟩ := signature?_eq_some hsignature
  obtain ⟨tree, hname, hrendered⟩ := h.rendered type _ hentry
  cases tree with
  | function result params variadic =>
    obtain ⟨hvariadic, hresult, hparams⟩ := hrendered
    refine ⟨⟨name, result.name, params.map TypeTree.name, variadic⟩, rfl, signature, ?_, hresult,
      List.forall₂_map_right_iff.2 hparams, hvariadic⟩
    rw [hentry, Prototype.type, ← TypeTree.name, ← hname]
  | void | num | chr | str | array => exact hrendered.elim

/-! ## Edits one by one -/

namespace Built

variable {program after : Program} {layout : Outline InstructionRef}

/-- A program that develops stays one as requests leave it. -/
theorem develops (h : program.Built layout) (hdevelops : program.Develops after) :
    after.Built layout where
  toWellFormed := h.toWellFormed.grows hdevelops.toGrows
  builtins := h.builtins
  links := by
    obtain ⟨chains, hlinks⟩ := h.links
    exact ⟨chains, hlinks.grows hdevelops.toGrows⟩
  owned := by
    refine h.owned.of_labels_eq hdevelops.labels fun ref entry hentry => ⟨entry, ?_, rfl⟩
    rw [hdevelops.functions, hentry]
  constants := hdevelops.constants h.constants

/-- The builtin functions stay in front when a function changes, but not its prototype. -/
theorem builtins_modify (h : program.Built layout) (function : FunctionRef)
    {change : Routine InstructionRef → Routine InstructionRef}
    (hchange : ∀ routine, (change routine).prototype = routine.prototype) :
    builtinPrototypes <+: (layout.modify function change).prototypes := by
  rw [Outline.prototypes_modify layout function hchange]
  exact h.builtins

/-- A free instruction is linked into the chain of a label, and the first instruction stays. -/
theorem relinks (h : program.Built layout) {label : LabelRef} {found : Label}
    (hfound : program.labels.get? label = some found) {ref : InstructionRef}
    {instruction : Instruction} (hinstruction : program.instructions.get? ref = some instruction)
    (hunlinked : instruction.label = none) {refs : List InstructionRef}
    (hchain : program.Chained label refs) (change : List InstructionRef → List InstructionRef)
    (hchained : after.Chained label (change refs)) (hinside : ref ∈ change refs)
    (hhead : ∀ items, items ≠ [] → (change items).head? = items.head?)
    (hrelinks : program.Relinks label ref after) (hlinks : ∃ chains, after.Links chains) :
    after.Built (layout.modify found.function (·.update found.name change)) ∧
      program.Extends after := by
  obtain ⟨entry, hentry, hfind⟩ := h.owned label found hfound
  obtain ⟨hlaid, hextends, hfunctions⟩ := Edit.relinks_laid h.toLaid hentry hfind hinstruction
    hunlinked hchain change hchained hinside hrelinks
  -- what keeps its first instruction is not empty
  have hnonempty : ∀ items, items ≠ [] → change items ≠ [] := by
    intro items hne hnil
    have := hhead items hne
    rw [hnil, List.head?_nil, eq_comm, List.head?_eq_none_iff] at this
    exact hne this
  have hformed : after.WellFormed (layout.modify found.function (·.update found.name change)) := by
    refine h.toWellFormed.modify hlaid (fun routine hfilled block hblock => ?_)
      (fun other _ => by rw [hfunctions]) fun known hknown => ?_
    · obtain ⟨old, hold, rfl⟩ := List.mem_map.1 hblock
      rw [Block.update]
      split
      · exact hnonempty _ (hfilled old hold)
      · exact hfilled old hold
    · -- the function is not told of the instruction, and need not be: its entry stays first
      rw [hfunctions] at hknown
      obtain ⟨routine, hroutine, -⟩ := h.functions found.function known hknown
      rw [h.entered found.function known hknown, hroutine, Option.map_some, Option.bind_some,
        Option.bind_some,
        Routine.first?_update (h.filled routine (List.mem_of_getElem? hroutine)) _ hhead]
  refine ⟨⟨hformed, h.builtins_modify _ fun _ => rfl, hlinks, h.owned.relinks hrelinks, ?_⟩,
    hextends⟩
  · refine h.constants.mono hextends.typeName fun other constant hvalue => .inl ?_
    rwa [hrelinks.rest] at hvalue

end Built

/-- The parts of a program that are changed by appending an instruction. -/
theorem LabelsOwned.append {program after : Program} {chains : LabelRef → List InstructionRef}
    (h : program.LabelsOwned) (hlinks : program.Links chains) {function : FunctionRef}
    {name : String} {ref : InstructionRef}
    (hrun : Edit.append function name ref program = .ok ((), after)) :
    after.LabelsOwned ∧ after.values = program.values := by
  obtain ⟨label, labelled, pushed, hlabel, -, hrelinks, -, rfl⟩ := Edit.append_parts hlinks hrun
  have hlabelled : labelled.LabelsOwned := by
    obtain ⟨entry, hentry, ⟨-, rfl⟩ | ⟨hnew, rfl⟩⟩ := Edit.labelNamed_cases hlabel
    · exact h
    · exact h.addLabel hentry hnew
  refine ⟨(hlabelled.relinks hrelinks).modify function fun _ => rfl, ?_⟩
  rw [hrelinks.rest, Edit.labelNamed_rest hlabel]

namespace Built

variable {program after : Program} {layout : Outline InstructionRef}

/-- Linking an instruction at the end of a chain. -/
theorem pushBack (h : program.Built layout) (hafter : ∃ chains, after.Links chains)
    {label : LabelRef} {ref : InstructionRef}
    (hrun : Edit.pushBack label ref program = .ok ((), after)) :
    (∃ layout', after.Built layout') ∧ program.Extends after := by
  obtain ⟨chains, hlinks⟩ := h.links
  obtain ⟨entry, ends, hentry, hunlinked, hends⟩ := Edit.free_of_pushBack hrun
  have hchain := hlinks.chained label ends hends
  obtain ⟨hchained, hrelinks⟩ :=
    (Edit.pushBack_yields hchain hentry (hlinks.isFree hentry hunlinked)).of_eq_ok hrun
  have hbuilt := h.relinks hends hentry hunlinked hchain (· ++ [ref]) hchained (by simp)
    (fun items hne => List.head?_append_of_ne_nil items hne) hrelinks hafter
  exact ⟨⟨_, hbuilt.1⟩, hbuilt.2⟩

/-- Linking an instruction behind another one, so never in front of a chain. -/
theorem insertAfter (h : program.Built layout) (hafter : ∃ chains, after.Links chains)
    {point ref : InstructionRef} (hrun : Edit.insertAfter point ref program = .ok ((), after)) :
    (∃ layout', after.Built layout') ∧ program.Extends after := by
  obtain ⟨chains, hlinks⟩ := h.links
  obtain ⟨place, label, entry, hplace, hlabel, hentry, hunlinked⟩ := Edit.free_of_insertAfter hrun
  have hmem := (hlinks.mem_iff hplace).2 hlabel
  have hchain := hlinks.chained_of_mem hmem
  obtain ⟨position, hposition⟩ := List.getElem?_of_mem hmem
  have hlt := (List.getElem?_eq_some_iff.1 hposition).1
  obtain ⟨hchained, hrelinks⟩ := (Edit.insertAfter_yields hchain hposition hentry
    (hlinks.isFree hentry hunlinked)).of_eq_ok hrun
  obtain ⟨ends, hends, -⟩ := hchain.ends
  have hhead : ∀ items : List InstructionRef, items ≠ [] →
      (items.insertIdx (position + 1) ref).head? = items.head? := by
    intro items hne
    obtain ⟨item, items, rfl⟩ := List.exists_cons_of_ne_nil hne
    rfl
  have hbuilt := h.relinks hends hentry hunlinked hchain (·.insertIdx (position + 1) ref) hchained
    ((List.mem_insertIdx (by omega)).2 (.inl rfl)) hhead hrelinks hafter
  exact ⟨⟨_, hbuilt.1⟩, hbuilt.2⟩

/-- A revision of a program as requests leave it is one again, with the same bodies. -/
theorem revision (h : program.Built layout) (hrevision : program.Revision after) :
    (∃ layout', after.Built layout' ∧ ∀ function, layout'.blocksAt function =
      layout.blocksAt function) ∧ program.Extends after := by
  obtain ⟨chains, hlinks⟩ := h.links
  obtain ⟨hafter, -, -⟩ := Edit.exists_links_of_change hlinks (.revision hrevision)
  -- most revisions leave the values alone
  have hconstants : after.values = program.values → program.Extends after →
      after.ConstantsTyped := fun hvalues hextends =>
    h.constants.mono hextends.typeName fun _ _ hvalue => .inl (hvalues ▸ hvalue)
  cases hrevision with
  | globalValue hentry hrun =>
    obtain ⟨hformed, hextends⟩ := (Edit.globalValue_yields h.toWellFormed hentry).of_eq_ok hrun
    obtain ⟨entry, -, rfl | ⟨-, rfl⟩⟩ := Edit.globalValue_cases hrun
    · exact ⟨⟨layout, h, fun _ => rfl⟩, hextends⟩
    · refine ⟨⟨layout, ⟨hformed, h.builtins, hafter, ?_, ?_⟩, fun _ => rfl⟩, hextends⟩
      · exact h.owned.of_labels_eq rfl fun ref entry hentry => ⟨entry, hentry, rfl⟩
      · refine h.constants.mono hextends.typeName fun other constant hvalue => .inl ?_
        rcases Arena.get?_alloc_eq_some hvalue with ⟨-, hglobal⟩ | hold
        · exact absurd hglobal (by simp)
        · exact hold
  | @declare name type signature ref hsignature hnew hrun =>
    obtain ⟨prototype, rfl, htype⟩ := h.interned.exists_prototype hsignature name
    -- a function of the prototype would have been found by its type
    have hfresh : prototype ∉ layout.prototypes := by
      intro hmem
      rw [h.functionOfType?_eq htype, Except.ok.injEq, Option.map_eq_none_iff,
        List.findIdx?_eq_none_iff] at hnew
      simpa using hnew prototype hmem
    obtain ⟨-, hformed, hextends, -⟩ :=
      (Edit.declareFunction_yields h.toWellFormed htype hfresh).of_eq_ok hrun
    obtain ⟨-, rfl⟩ := Prod.mk.inj (Except.ok.inj
      ((Edit.declareFunction_of_none hsignature hnew).symm.trans hrun))
    refine ⟨⟨_, ⟨hformed, ?_, hafter, ?_, hconstants rfl hextends⟩, layout.blocksAt_declare _⟩,
      hextends⟩
    · rw [Outline.prototypes_declare]
      exact h.builtins.trans (List.prefix_append _ _)
    · exact h.owned.of_labels_eq rfl fun ref entry hentry =>
        ⟨entry, Arena.get?_alloc_of_some hentry _, rfl⟩
  | @setParams function entry params hentry hrun =>
    obtain ⟨hformed, hextends, -⟩ :=
      (Edit.setParams_yields h.toWellFormed hentry params).of_eq_ok hrun
    obtain ⟨found, -, rfl⟩ := Edit.exists_of_updateFunction hrun
    exact ⟨⟨_, ⟨hformed, h.builtins_modify function fun _ => rfl, hafter,
      h.owned.modify function fun _ => rfl, hconstants rfl hextends⟩,
      layout.blocksAt_modify_of_blocks_eq function fun _ => rfl⟩, hextends⟩
  | define htype hnew hrun =>
    obtain ⟨hformed, hextends⟩ :=
      (Edit.defineGlobal_yields h.toWellFormed htype hnew).of_eq_ok hrun
    obtain ⟨-, rfl⟩ := Prod.mk.inj (Except.ok.inj
      ((Edit.defineGlobal_of_none _ hnew).symm.trans hrun))
    refine ⟨⟨_, ⟨hformed, h.builtins, hafter, ?_, hconstants rfl hextends⟩, fun _ => rfl⟩, hextends⟩
    exact h.owned.of_labels_eq rfl fun ref entry hentry => ⟨entry, hentry, rfl⟩

/-- Appending an instruction puts it at the end of the block of its label. -/
theorem append (h : program.Built layout) {function : FunctionRef} {name : String}
    {ref : InstructionRef} (hrun : Edit.append function name ref program = .ok ((), after)) :
    after.Built (layout.modify function (·.append name ref)) ∧ program.Extends after := by
  obtain ⟨chains, hlinks⟩ := h.links
  obtain ⟨hafter, -, -⟩ := Edit.exists_links_of_change hlinks (.append hrun)
  obtain ⟨label, labelled, hlabel, hrest⟩ := Step.bind_eq_ok.1 hrun
  obtain ⟨⟨⟩, pushed, hpush, -⟩ := Step.bind_eq_ok.1 hrest
  obtain ⟨instruction, ends, hinstruction, hunlinked, -⟩ := Edit.free_of_pushBack hpush
  obtain ⟨entry, hentry, hlabelled⟩ := Edit.labelNamed_cases hlabel
  -- a new label leaves the instruction as free as it was
  have hsame : labelled.instructions = program.instructions := by
    obtain ⟨-, rfl⟩ | ⟨-, rfl⟩ := hlabelled <;> rfl
  obtain ⟨hformed, hextends⟩ := (Edit.append_yields h.toWellFormed hentry name
    (hsame ▸ hinstruction) hunlinked).of_eq_ok hrun
  obtain ⟨howned, hvalues⟩ := h.owned.append hlinks hrun
  have hconstants : after.ConstantsTyped :=
    h.constants.mono hextends.typeName fun _ _ hvalue => .inl (hvalues ▸ hvalue)
  exact ⟨⟨hformed, h.builtins_modify function (Routine.prototype_append name ref), hafter, howned,
    hconstants⟩, hextends⟩

/-- **Changes of a program as requests leave it**: it stays one, and its entries stay what they are.
-/
theorem change (h : program.Built layout) (hchange : program.Change after) :
    (∃ layout', after.Built layout') ∧ program.Extends after := by
  obtain ⟨chains, hlinks⟩ := h.links
  obtain ⟨hafter, -, -⟩ := Edit.exists_links_of_change hlinks hchange
  cases hchange with
  | revision hrevision =>
    obtain ⟨⟨layout', hbuilt, -⟩, hextends⟩ := h.revision hrevision
    exact ⟨⟨layout', hbuilt⟩, hextends⟩
  | append hrun =>
    obtain ⟨hbuilt, hextends⟩ := h.append hrun
    exact ⟨⟨_, hbuilt⟩, hextends⟩
  | pushBack hrun => exact h.pushBack hafter hrun
  | insertAfter hrun => exact h.insertAfter hafter hrun

end Built

end Program

/-- Programs that requests have built are laid out in some way. -/
theorem Request.built_of_runAll {requests : List Request} {program : Program}
    (hrun : runAll requests Program.initial = .ok ((), program)) :
    ∃ layout, program.Built layout := by
  have hlabels : Program.initial.labels.size = 0 := by decide +kernel
  have hvalues : Program.initial.values.size = 0 := by decide +kernel
  refine property_of_runAll (fun program => ∃ layout, program.Built layout) ?_ ?_ ?_ ?_ hrun
  · obtain ⟨layout, hshows⟩ := Program.shownBy_initial
    have hprototypes := hshows.statements.prototypes_eq
    rw [Outline.prototypes_ofPrototypes] at hprototypes
    refine ⟨layout, hshows.toWellFormed, hprototypes ▸ List.prefix_rfl, ⟨_, links_initial⟩, ?_, ?_⟩
    · intro label found hfound
      exact absurd (Arena.lt_size_of_get? hfound) (by omega)
    · intro ref constant hvalue
      exact absurd (Arena.lt_size_of_get? hvalue) (by omega)
  · rintro program ⟨layout, h⟩
    exact h.interned
  · rintro program after ⟨layout, h⟩ hdevelops
    exact ⟨layout, h.develops hdevelops⟩
  · rintro program after ⟨layout, h⟩ hchange
    exact (h.change hchange).1

/-! ## Requests one by one -/

namespace Program

/-- Requests have built the program from the initial one. -/
def Requested (program : Program) : Prop :=
  ∃ requests, Request.runAll requests Program.initial = .ok ((), program)

namespace Requested

variable {program after : Program}

/-- The initial program needs no request. -/
theorem initial : Requested Program.initial := ⟨[], rfl⟩

/-- One more request. -/
theorem run (h : program.Requested) {request : Request}
    (hrun : request.run program = .ok ((), after)) : after.Requested := by
  obtain ⟨requests, hbuilt⟩ := h
  refine ⟨requests ++ [request], ?_⟩
  have hlast : Request.runAll [request] program = .ok ((), after) := by
    rw [Request.runAll, List.forM_cons, Step.bind_of_ok hrun]
    rfl
  rw [Request.runAll, List.forM_append]
  exact (Step.bind_of_ok hbuilt).trans hlast

/-- A program that requests have made has a layout, which the requests built with it. -/
theorem exists_built (h : program.Requested) : ∃ layout, program.Built layout := by
  obtain ⟨requests, hbuilt⟩ := h
  exact Request.built_of_runAll hbuilt

/-- Its types are interned, as those of every layout are. -/
theorem interned (h : program.Requested) : program.Interned := by
  obtain ⟨layout, hbuilt⟩ := h.exists_built
  exact hbuilt.interned

/-- A request leaves all entries what they are. -/
theorem extends_of_run (h : program.Requested) {request : Request}
    (hrun : request.run program = .ok ((), after)) : program.Extends after := by
  obtain ⟨layout, hbuilt⟩ := h.exists_built
  obtain ⟨middle, hdevelops, hlast⟩ := Request.exists_change hbuilt.interned hrun
  have hextends := hdevelops.toExtends
  rcases hlast with rfl | hchange
  · exact hextends
  · exact hextends.trans ((hbuilt.develops hdevelops).change hchange).2

end Requested

end Program

end ChainIR
