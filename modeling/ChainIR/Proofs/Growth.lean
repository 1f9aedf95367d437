import Mathlib
import ChainIR.Proofs.ReadsAlike
import ChainIR.Proofs.Reading.Requests

/-! # Programs only grow

All entries of a program refer to each other by their places, so everything that is known of a
program rests on no entry ever moving or turning into another one. Whatever requests and lines make
of a program, its arenas are extended (`Program.OnlyGrows`): types and values stay as they are,
instructions, labels, functions and globals stay what they are, what is set in them stays set, and
the lists in them get longer at the end alone. Parameter names and the links of chains are the only
things that change, and nothing that is read through an old reference depends on them
(`Program.ReadsAlike`).

* `Request.onlyGrows`: what one request does.
* `Program.Reachable.growth`: what requests and lines do, in any order. -/

namespace ChainIR

/-! ## Arenas that are extended -/

/-- What is set stays set. -/
def StaysSet {α : Type} (old new : Option α) : Prop := ∀ value, old = some value → new = some value

namespace StaysSet

variable {α : Type} {old new newer : Option α}

/-- What has not changed has stayed. -/
theorem of_eq (h : new = old) : StaysSet old new := fun _ hold => h.trans hold

/-- What had not been set may be set to anything. -/
theorem of_none (h : old = none) : StaysSet old new := by
  rintro value hold
  exact absurd (h.symm.trans hold) (by simp)

/-- What stays set from step to step stays set. -/
theorem trans (first : StaysSet old new) (second : StaysSet new newer) : StaysSet old newer :=
  fun value hold => second value (first value hold)

end StaysSet

namespace Arena

variable {κ : Type} {tag : κ} {α : Type} {kept : α → α → Prop}

/-- Whatever is found in the one arena is found at the same place in the other, and what has been
kept of it is as described. -/
def Extends (kept : α → α → Prop) (arena after : Arena tag α) : Prop :=
  ∀ ref entry, arena.get? ref = some entry →
    ∃ entry', after.get? ref = some entry' ∧ kept entry entry'

/-- The entries of an arena know their places. -/
def KnowsPlaces (self : α → Ref tag) (arena : Arena tag α) : Prop :=
  ∀ ref entry, arena.get? ref = some entry → self entry = ref

namespace Extends

variable {arena after further : Arena tag α}

/-- An arena extends itself. -/
theorem refl (hrefl : ∀ entry, kept entry entry) (arena : Arena tag α) : arena.Extends kept arena :=
  fun _ entry hentry => ⟨entry, hentry, hrefl entry⟩

/-- Extensions compose if what they keep does. -/
theorem trans (htrans : ∀ {first second third}, kept first second → kept second third →
      kept first third)
    (first : arena.Extends kept after) (second : after.Extends kept further) :
    arena.Extends kept further := by
  intro ref entry hentry
  obtain ⟨entry', hentry', hkept⟩ := first ref entry hentry
  obtain ⟨entry'', hentry'', hkept'⟩ := second ref entry' hentry'
  exact ⟨entry'', hentry'', htrans hkept hkept'⟩

/-- A new entry leaves the others alone. -/
theorem alloc (hrefl : ∀ entry, kept entry entry) (arena : Arena tag α) (entry : α) :
    arena.Extends kept (arena.alloc entry).2 :=
  fun _ old hold => ⟨old, get?_alloc_of_some hold entry, hrefl old⟩

/-- A change of one entry, as long as it is one that is allowed. -/
theorem modify (hrefl : ∀ entry, kept entry entry) {ref : Ref tag} {change : α → α}
    (hchange : ∀ entry, arena.get? ref = some entry → kept entry (change entry)) :
    arena.Extends kept (arena.modify ref change) := by
  intro other entry hentry
  obtain ⟨later, hlater, rfl | ⟨rfl, rfl⟩⟩ := get?_modify_of_some hentry ref change
  · exact ⟨later, hlater, hrefl later⟩
  · exact ⟨change entry, hlater, hchange entry hentry⟩

end Extends

namespace KnowsPlaces

variable {self : α → Ref tag} {arena : Arena tag α} (h : arena.KnowsPlaces self)

include h

/-- A new entry that is told its place. -/
theorem allocWith (build : Ref tag → α) (hbuild : self (build arena.nextRef) = arena.nextRef) :
    (arena.allocWith build).2.KnowsPlaces self := by
  intro ref entry hentry
  rcases get?_alloc_eq_some hentry with ⟨rfl, rfl⟩ | hold
  · exact hbuild
  · exact h ref entry hold

/-- Entries that have each changed, but not in their places. -/
theorem of_same {after : Arena tag α}
    (hafter : ∀ ref entry, after.get? ref = some entry →
      ∃ old, arena.get? ref = some old ∧ self entry = self old) : after.KnowsPlaces self := by
  intro ref entry hentry
  obtain ⟨old, hold, hself⟩ := hafter ref entry hentry
  rw [hself, h ref old hold]

/-- A change that leaves what entries say of their places. -/
theorem modify {ref : Ref tag} {change : α → α}
    (hchange : ∀ entry, arena.get? ref = some entry → self (change entry) = self entry) :
    (arena.modify ref change).KnowsPlaces self := by
  refine h.of_same fun other entry hentry => ?_
  obtain ⟨old, hold, rfl | ⟨rfl, rfl⟩⟩ := get?_modify_eq_some hentry
  · exact ⟨entry, hold, rfl⟩
  · exact ⟨old, hold, hchange old hold⟩

end KnowsPlaces

end Arena

/-! ## Entries that stay what they are -/

/-- An instruction goes on to do what it does, and keeps its label and its value. -/
structure Instruction.Persists (old later : Instruction) : Prop where
  self : later.self = old.self
  operation : later.operation = old.operation
  /-- An instruction stays under its label. -/
  label : StaysSet old.label later.label
  /-- The value of an instruction is made only once. -/
  result : StaysSet old.result later.result

/-- A label keeps its name and its function. -/
structure Label.Persists (old later : Label) : Prop where
  self : later.self = old.self
  name : later.name = old.name
  function : later.function = old.function

/-- A function keeps its name, its type and its entry, and gets more labels at the end. -/
structure Function.Persists (old later : Function) : Prop where
  self : later.self = old.self
  name : later.name = old.name
  type : later.type = old.type
  /-- The entry is set only once. -/
  entry : StaysSet old.entry later.entry
  /-- New labels come behind the others. -/
  labels : old.labels <+: later.labels
  /-- A label goes on to be found by its name. -/
  labelNames : ∀ name, StaysSet (old.labelNames.find? name) (later.labelNames.find? name)

/-- A global keeps its name, its constant and its value. -/
structure Global.Persists (old later : Global) : Prop where
  self : later.self = old.self
  name : later.name = old.name
  initial : later.initial = old.initial
  /-- The value of a global is made only once. -/
  result : StaysSet old.result later.result

namespace Instruction.Persists

/-- An unchanged instruction persists. -/
theorem refl (entry : Instruction) : entry.Persists entry := ⟨rfl, rfl, .of_eq rfl, .of_eq rfl⟩

/-- An instruction that persists step by step persists. -/
theorem trans {entry later latest : Instruction} (first : entry.Persists later)
    (second : later.Persists latest) : entry.Persists latest where
  self := second.self.trans first.self
  operation := second.operation.trans first.operation
  label := first.label.trans second.label
  result := first.result.trans second.result

end Instruction.Persists

namespace Label.Persists

/-- An unchanged label persists. -/
theorem refl (entry : Label) : entry.Persists entry := ⟨rfl, rfl, rfl⟩

/-- A label that persists step by step persists. -/
theorem trans {entry later latest : Label} (first : entry.Persists later)
    (second : later.Persists latest) : entry.Persists latest where
  self := second.self.trans first.self
  name := second.name.trans first.name
  function := second.function.trans first.function

end Label.Persists

namespace Function.Persists

/-- An unchanged function persists. -/
theorem refl (entry : Function) : entry.Persists entry :=
  ⟨rfl, rfl, rfl, .of_eq rfl, List.prefix_rfl, fun _ => .of_eq rfl⟩

/-- A function that persists step by step persists: its labels are only added to. -/
theorem trans {entry later latest : Function} (first : entry.Persists later)
    (second : later.Persists latest) : entry.Persists latest where
  self := second.self.trans first.self
  name := second.name.trans first.name
  type := second.type.trans first.type
  entry := first.entry.trans second.entry
  labels := first.labels.trans second.labels
  labelNames name := (first.labelNames name).trans (second.labelNames name)

end Function.Persists

namespace Global.Persists

/-- An unchanged global persists. -/
theorem refl (entry : Global) : entry.Persists entry := ⟨rfl, rfl, rfl, .of_eq rfl⟩

/-- A global that persists step by step persists. -/
theorem trans {entry later latest : Global} (first : entry.Persists later)
    (second : later.Persists latest) : entry.Persists latest where
  self := second.self.trans first.self
  name := second.name.trans first.name
  initial := second.initial.trans first.initial
  result := first.result.trans second.result

end Global.Persists

/-! ## Programs that are extended -/

namespace Program

/-- The entries of all arenas that store their own references know their places. -/
structure KnowsPlaces (program : Program) : Prop where
  instructions : program.instructions.KnowsPlaces Instruction.self
  labels : program.labels.KnowsPlaces Label.self
  functions : program.functions.KnowsPlaces Function.self
  globals : program.globals.KnowsPlaces Global.self

/-- All arenas and all tables of one program extend those of the other. -/
structure OnlyGrows (program after : Program) : Prop where
  /-- Types stay as they are. -/
  types : program.types.Extends Eq after.types
  /-- Values stay as they are. -/
  values : program.values.Extends Eq after.values
  /-- Instructions stay what they are. -/
  instructions : program.instructions.Extends Instruction.Persists after.instructions
  /-- Labels stay what they are. -/
  labels : program.labels.Extends Label.Persists after.labels
  /-- Functions stay what they are. -/
  functions : program.functions.Extends Function.Persists after.functions
  /-- Globals stay what they are. -/
  globals : program.globals.Extends Global.Persists after.globals
  /-- A type goes on to be found by its name. -/
  typeNames : ∀ name, StaysSet (program.typeNames.find? name) (after.typeNames.find? name)
  /-- New functions of a name come behind the others. -/
  overloads : ∀ name, program.overloadsOf name <+: after.overloadsOf name
  /-- A global goes on to be found by its name. -/
  globalNames : ∀ name, StaysSet (program.globalNamed? name) (after.globalNamed? name)
  /-- Entries that know their places go on to know them, and new ones do. -/
  places : program.KnowsPlaces → after.KnowsPlaces

namespace OnlyGrows

variable {program after further : Program}

/-- A program grows by nothing. -/
@[refl] theorem refl (program : Program) : program.OnlyGrows program where
  types := .refl (fun _ => rfl) _
  values := .refl (fun _ => rfl) _
  instructions := .refl Instruction.Persists.refl _
  labels := .refl Label.Persists.refl _
  functions := .refl Function.Persists.refl _
  globals := .refl Global.Persists.refl _
  typeNames _ := .of_eq rfl
  overloads _ := List.prefix_rfl
  globalNames _ := .of_eq rfl
  places := id

/-- Growth in two parts is growth. -/
theorem trans (first : program.OnlyGrows after) (second : after.OnlyGrows further) :
    program.OnlyGrows further where
  types := first.types.trans Eq.trans second.types
  values := first.values.trans Eq.trans second.values
  instructions := first.instructions.trans Instruction.Persists.trans second.instructions
  labels := first.labels.trans Label.Persists.trans second.labels
  functions := first.functions.trans Function.Persists.trans second.functions
  globals := first.globals.trans Global.Persists.trans second.globals
  typeNames name := (first.typeNames name).trans (second.typeNames name)
  overloads name := (first.overloads name).trans (second.overloads name)
  globalNames name := (first.globalNames name).trans (second.globalNames name)
  places := second.places ∘ first.places

/-- Types are added, each under a name of its own. -/
theorem of_addsTypes (h : program.AddsTypes after) (hinterned : program.Interned)
    (hafter : after.Interned) : program.OnlyGrows after := by
  have htypes : program.types.Extends Eq after.types :=
    fun ref entry hentry => ⟨entry, h.types ref entry hentry, rfl⟩
  have hnames : ∀ name, StaysSet (program.typeNames.find? name) (after.typeNames.find? name) := by
    intro name ref hfind
    obtain ⟨entry, hentry, rfl⟩ := hinterned.stored name ref hfind
    exact hafter.listed ref entry (h.types ref entry hentry)
  rw [h.rest]
  exact { refl program with
    types := htypes
    typeNames := hnames
    places := fun h => ⟨h.1, h.2, h.3, h.4⟩ }

/-- A value is added. -/
theorem addValue (program : Program) (value : Value) :
    program.OnlyGrows { program with values := (program.values.alloc value).2 } :=
  { refl program with
    values := .alloc (fun _ => rfl) _ value
    places := fun h => ⟨h.1, h.2, h.3, h.4⟩ }

/-- An instruction is added, which is told its place. -/
theorem addInstruction (program : Program) (operation : Operation) :
    program.OnlyGrows { program with
      instructions := (program.instructions.allocWith fun self => { self, operation }).2 } :=
  { refl program with
    instructions := .alloc Instruction.Persists.refl _ _
    places := fun h => ⟨h.instructions.allocWith (⟨·, operation, none, none, none, none⟩) rfl,
      h.labels, h.functions, h.globals⟩ }

/-- A label is added, which is told its place. -/
theorem addLabel (program : Program) (name : String) (function : FunctionRef) :
    program.OnlyGrows { program with
      labels := (program.labels.allocWith fun self => { self, name, function }).2 } :=
  { refl program with
    labels := .alloc Label.Persists.refl _ _
    places := fun h => ⟨h.instructions,
      h.labels.allocWith (⟨·, name, function, none, none⟩) rfl, h.functions, h.globals⟩ }

/-- An instruction is changed, but stays what it is. -/
theorem modifyInstruction {ref : InstructionRef} {change : Instruction → Instruction}
    (hchange : ∀ entry, program.instructions.get? ref = some entry →
      entry.Persists (change entry)) :
    program.OnlyGrows { program with instructions := program.instructions.modify ref change } :=
  { refl program with
    instructions := .modify Instruction.Persists.refl hchange
    places := fun h => ⟨h.instructions.modify fun entry hentry => (hchange entry hentry).self,
      h.labels, h.functions, h.globals⟩ }

/-- A function is changed, but stays what it is. -/
theorem modifyFunction {ref : FunctionRef} {change : Function → Function}
    (hchange : ∀ entry, program.functions.get? ref = some entry → entry.Persists (change entry)) :
    program.OnlyGrows { program with functions := program.functions.modify ref change } :=
  { refl program with
    functions := .modify Function.Persists.refl hchange
    places := fun h => ⟨h.instructions, h.labels,
      h.functions.modify fun entry hentry => (hchange entry hentry).self, h.globals⟩ }

/-- A global is changed, but stays what it is. -/
theorem modifyGlobal {ref : GlobalRef} {change : Global → Global}
    (hchange : ∀ entry, program.globals.get? ref = some entry → entry.Persists (change entry)) :
    program.OnlyGrows { program with globals := program.globals.modify ref change } :=
  { refl program with
    globals := .modify Global.Persists.refl hchange
    places := fun h => ⟨h.instructions, h.labels, h.functions,
      h.globals.modify fun entry hentry => (hchange entry hentry).self⟩ }

/-- A function is added behind the others of its name. -/
theorem declare (program : Program) (name : String) (type : TypeRef) :
    program.OnlyGrows { program with
      functions := (program.functions.allocWith fun self => { self, name, type }).2
      overloads := program.overloads.insert name
        (program.overloadsOf name ++ [program.functions.nextRef]) } := by
  refine { refl program with
    functions := .alloc Function.Persists.refl _ _
    overloads := fun other => ?_
    places := fun h => ⟨h.instructions, h.labels,
      h.functions.allocWith (⟨·, name, type, [], none, [], {}⟩) rfl, h.globals⟩ }
  rw [overloadsOf, overloadsOf, NameTable.find?_insert]
  by_cases hequal : other = name
  · rw [if_pos hequal, hequal]
    exact List.prefix_append _ _
  · rw [if_neg hequal]

/-- A global is added under a name that was free. -/
theorem define (initial : Constant) {name : String} (hfree : program.globalNamed? name = none) :
    program.OnlyGrows { program with
      globals := (program.globals.allocWith fun self => { self, name, initial }).2
      globalNames := program.globalNames.insert name program.globals.nextRef } := by
  refine { refl program with
    globals := .alloc Global.Persists.refl _ _
    globalNames := fun other => ?_
    places := fun h => ⟨h.instructions, h.labels, h.functions,
      h.globals.allocWith (⟨·, name, initial, none⟩) rfl⟩ }
  rw [globalNamed?, globalNamed?, NameTable.find?_insert]
  by_cases hequal : other = name
  · exact .of_none (hequal ▸ hfree)
  · rw [if_neg hequal]
    exact .of_eq rfl

/-- Linking gives a label to an instruction that has none, and changes nothing else but links. -/
theorem of_relinks {label : LabelRef} {ref : InstructionRef} {entry : Instruction}
    (h : program.Relinks label ref after) (hentry : program.instructions.get? ref = some entry)
    (hunlinked : entry.label = none) : program.OnlyGrows after := by
  have hinstructions : program.instructions.Extends Instruction.Persists after.instructions := by
    intro other old hold
    obtain ⟨later, hlater, hself, hoperation, hresult⟩ := h.instruction_after hold
    refine ⟨later, hlater, hself, hoperation, ?_, .of_eq hresult⟩
    by_cases hlinked : other = ref
    · subst hlinked
      obtain rfl := Option.some.inj (hold.symm.trans hentry)
      exact .of_none hunlinked
    · obtain ⟨later', hlater', hlabel, -⟩ := h.others other old hold hlinked
      obtain rfl := Option.some.inj (hlater.symm.trans hlater')
      exact .of_eq hlabel
  have hlabels : program.labels.Extends Label.Persists after.labels := by
    intro other old hold
    obtain ⟨later, hlater, hself, hname, hfunction⟩ := h.label_after hold
    exact ⟨later, hlater, hself, hname, hfunction⟩
  rw [h.rest]
  refine { refl program with instructions := hinstructions, labels := hlabels, places := ?_ }
  -- linking adds no entry, so every entry knows its place from before
  intro hplaces
  refine ⟨hplaces.instructions.of_same fun other later hlater => ?_,
    hplaces.labels.of_same fun other later hlater => ?_, hplaces.functions, hplaces.globals⟩
  · obtain ⟨old, hold, hself, -⟩ := h.instruction_before hlater
    exact ⟨old, hold, hself⟩
  · obtain ⟨old, hold, hself, -⟩ := h.label_before hlater
    exact ⟨old, hold, hself⟩

end OnlyGrows

end Program

/-! ## Requests -/

namespace Edit

open Program

variable {program after : Program}

/-- The constant of a literal takes no more than a request for the type of the literal. -/
theorem exists_request_of_constantOf {literal : Literal} {constant : Constant}
    (hrun : constantOf literal program = .ok (constant, after)) :
    ∃ request : TypeRequest, request.run program = .ok ((), after) := by
  cases literal with
  | num value =>
    obtain ⟨type, middle, htype, hlast⟩ := Step.bind_eq_ok.1 hrun
    obtain ⟨-, rfl⟩ := Prod.mk.inj (Except.ok.inj hlast)
    exact ⟨.ofShape .num, (Step.drop_eq_ok fun _ => rfl).2 ⟨type, htype⟩⟩
  | str text =>
    obtain ⟨type, middle, htype, hlast⟩ := Step.bind_eq_ok.1 hrun
    obtain ⟨-, rfl⟩ := Prod.mk.inj (Except.ok.inj hlast)
    exact ⟨.ofShape .str, (Step.drop_eq_ok fun _ => rfl).2 ⟨type, htype⟩⟩

/-- The constant of a literal adds the type of the literal at most. -/
theorem onlyGrows_of_constantOf (h : program.Interned) {literal : Literal} {constant : Constant}
    (hrun : constantOf literal program = .ok (constant, after)) : program.OnlyGrows after := by
  obtain ⟨request, hrequest⟩ := exists_request_of_constantOf hrun
  obtain ⟨hadds, hafter⟩ := TypeRequest.addsTypes_of_run h hrequest
  exact .of_addsTypes hadds h hafter

/-- A new value is behind all others. -/
theorem onlyGrows_of_addValue {value : Value} {ref : ValueRef}
    (hrun : addValue value program = .ok (ref, after)) : program.OnlyGrows after := by
  obtain ⟨-, rfl⟩ := Prod.mk.inj (Except.ok.inj hrun)
  exact .addValue program value

/-- A new instruction is behind all others. -/
theorem onlyGrows_of_addInstruction {operation : Operation} {ref : InstructionRef}
    (hrun : addInstruction operation program = .ok (ref, after)) : program.OnlyGrows after := by
  obtain ⟨-, rfl⟩ := Prod.mk.inj (Except.ok.inj hrun)
  exact .addInstruction program operation

/-- The value of an instruction is set only if there is none. -/
theorem onlyGrows_of_resultValue {ref : InstructionRef} {value : ValueRef}
    (hrun : resultValue ref program = .ok (value, after)) : program.OnlyGrows after := by
  obtain ⟨entry, hentry, ⟨-, rfl⟩ | ⟨hnone, -, rfl⟩⟩ := resultValue_cases hrun
  · exact .refl program
  · refine (OnlyGrows.addValue program (.result ref)).trans (.modifyInstruction fun found hfound => ?_)
    obtain rfl : entry = found := Option.some.inj (hentry.symm.trans hfound)
    exact ⟨rfl, rfl, .of_eq rfl, .of_none hnone⟩

/-- The value of a global is set only if there is none. -/
theorem onlyGrows_of_globalValue {ref : GlobalRef} {value : ValueRef}
    (hrun : globalValue ref program = .ok (value, after)) : program.OnlyGrows after := by
  obtain ⟨entry, hentry, rfl | ⟨hnone, rfl⟩⟩ := globalValue_cases hrun
  · exact .refl program
  · refine (OnlyGrows.addValue program (.global ref)).trans (.modifyGlobal fun found hfound => ?_)
    obtain rfl : entry = found := Option.some.inj (hentry.symm.trans hfound)
    exact ⟨rfl, rfl, rfl, .of_none hnone⟩

/-- A new function stands behind the other overloads of its name. -/
theorem onlyGrows_of_declareFunction {name : String} {type : TypeRef} {ref : FunctionRef}
    (hrun : declareFunction name type program = .ok (ref, after)) : program.OnlyGrows after := by
  obtain ⟨signature, hsignature, hnew⟩ := new_of_declareFunction hrun
  obtain ⟨-, rfl⟩ := Prod.mk.inj (Except.ok.inj
    ((declareFunction_of_none hsignature hnew).symm.trans hrun))
  exact .declare program name type

/-- A new global has a name that no other one has. -/
theorem onlyGrows_of_defineGlobal {name : String} {initial : Constant} {ref : GlobalRef}
    (hrun : defineGlobal name initial program = .ok (ref, after)) : program.OnlyGrows after := by
  have hfree := new_of_defineGlobal hrun
  obtain ⟨-, rfl⟩ := Prod.mk.inj (Except.ok.inj ((defineGlobal_of_none _ hfree).symm.trans hrun))
  exact .define initial hfree

/-- Parameter names are no part of what a function is. -/
theorem onlyGrows_of_setParams {function : FunctionRef} {params : List String}
    (hrun : setParams function params program = .ok ((), after)) : program.OnlyGrows after := by
  obtain ⟨entry, -, rfl⟩ := exists_of_updateFunction hrun
  exact .modifyFunction fun _ _ => ⟨rfl, rfl, rfl, .of_eq rfl, List.prefix_rfl, fun _ => .of_eq rfl⟩

/-- A new label stands behind the others, under a name that was free. -/
theorem onlyGrows_of_labelNamed {function : FunctionRef} {name : String} {label : LabelRef}
    (hrun : labelNamed function name program = .ok (label, after)) : program.OnlyGrows after := by
  obtain ⟨entry, hentry, ⟨-, rfl⟩ | ⟨hfree, rfl⟩⟩ := labelNamed_cases hrun
  · rfl
  refine (OnlyGrows.addLabel program name function).trans (.modifyFunction fun found hfound => ?_)
  obtain rfl : entry = found := Option.some.inj (hentry.symm.trans hfound)
  refine ⟨rfl, rfl, rfl, .of_eq rfl, List.prefix_append _ _, fun other => ?_⟩
  by_cases hequal : other = name
  · exact .of_none (hequal ▸ hfree)
  · exact .of_eq (by rw [NameTable.find?_insert, if_neg hequal])

section Links

variable {chains : LabelRef → List InstructionRef} (h : program.Links chains)

include h

/-- Linking at the end of a chain is refused if the instruction has a label. -/
theorem onlyGrows_of_pushBack {label : LabelRef} {ref : InstructionRef}
    (hrun : pushBack label ref program = .ok ((), after)) : program.OnlyGrows after := by
  obtain ⟨entry, ends, hentry, hunlinked, hends⟩ := free_of_pushBack hrun
  obtain ⟨-, hrelinks⟩ := (pushBack_links h hends hentry hunlinked).of_eq_ok hrun
  exact .of_relinks hrelinks hentry hunlinked

/-- Linking behind an instruction is refused if the instruction to be linked has a label. -/
theorem onlyGrows_of_insertAfter {point ref : InstructionRef}
    (hrun : insertAfter point ref program = .ok ((), after)) : program.OnlyGrows after := by
  obtain ⟨place, label, entry, hplace, hlabel, hentry, hunlinked⟩ := free_of_insertAfter hrun
  obtain ⟨position, -, hyields⟩ := insertAfter_links h hplace hlabel hentry hunlinked
  exact .of_relinks (hyields.of_eq_ok hrun).2 hentry hunlinked

/-- The entry of a function is set only if there is none. -/
theorem onlyGrows_of_append {function : FunctionRef} {name : String} {ref : InstructionRef}
    (hrun : append function name ref program = .ok ((), after)) : program.OnlyGrows after := by
  obtain ⟨label, labelled, -, hlabel, hlinks, -⟩ := append_parts h hrun
  rw [append, Step.bind_of_ok hlabel] at hrun
  obtain ⟨⟨⟩, pushed, hpush, hupdate⟩ := Step.bind_eq_ok.1 hrun
  obtain ⟨entry, -, rfl⟩ := exists_of_updateFunction hupdate
  have hgrown := (onlyGrows_of_labelNamed hlabel).trans (onlyGrows_of_pushBack hlinks hpush)
  refine hgrown.trans (.modifyFunction fun found _ => ?_)
  refine ⟨rfl, rfl, rfl, fun first hfirst => ?_, List.prefix_rfl, fun _ => .of_eq rfl⟩
  rw [hfirst, Option.some_or]

end Links

end Edit

/-- **Requests only extend**: a request that succeeds extends all arenas and all tables. -/
theorem Request.onlyGrows {request : Request} {program after : Program}
    (h : program.Reachable) (hrun : request.run program = .ok ((), after)) :
    program.OnlyGrows after := by
  obtain ⟨layout, hbuilt⟩ := h.requested.exists_built
  obtain ⟨chains, hlinks⟩ := hbuilt.links
  cases request with
  | getType request =>
    obtain ⟨hadds, hafter⟩ := TypeRequest.addsTypes_of_run hbuilt.interned hrun
    exact .of_addsTypes hadds hbuilt.interned hafter
  | addRegister name type =>
    obtain ⟨value, hadd⟩ := (Step.drop_eq_ok fun _ => rfl).1 hrun
    exact Edit.onlyGrows_of_addValue hadd
  | addGlobalPointer name type =>
    obtain ⟨value, hadd⟩ := (Step.drop_eq_ok fun _ => rfl).1 hrun
    exact Edit.onlyGrows_of_addValue hadd
  | addConstant literal =>
    obtain ⟨constant, middle, hconstant, hrest⟩ := Step.bind_eq_ok.1 hrun
    obtain ⟨value, hadd⟩ := (Step.drop_eq_ok fun _ => rfl).1 hrest
    exact (Edit.onlyGrows_of_constantOf hbuilt.interned hconstant).trans
      (Edit.onlyGrows_of_addValue hadd)
  | getResult instruction =>
    obtain ⟨value, hresult⟩ := (Step.drop_eq_ok fun _ => rfl).1 hrun
    exact Edit.onlyGrows_of_resultValue hresult
  | getGlobal global =>
    obtain ⟨value, hresult⟩ := (Step.drop_eq_ok fun _ => rfl).1 hrun
    exact Edit.onlyGrows_of_globalValue hresult
  | addInstruction operation =>
    obtain ⟨ref, hadd⟩ := (Step.drop_eq_ok fun _ => rfl).1 hrun
    exact Edit.onlyGrows_of_addInstruction hadd
  | declare name type =>
    obtain ⟨ref, hdeclare⟩ := (Step.drop_eq_ok fun _ => rfl).1 hrun
    exact Edit.onlyGrows_of_declareFunction hdeclare
  | setParams function params => exact Edit.onlyGrows_of_setParams hrun
  | define name literal =>
    obtain ⟨constant, middle, hconstant, hrest⟩ := Step.bind_eq_ok.1 hrun
    obtain ⟨ref, hdefine⟩ := (Step.drop_eq_ok fun _ => rfl).1 hrest
    exact (Edit.onlyGrows_of_constantOf hbuilt.interned hconstant).trans
      (Edit.onlyGrows_of_defineGlobal hdefine)
  | append function label instruction => exact Edit.onlyGrows_of_append hlinks hrun
  | appendNew cursor operation =>
    obtain ⟨answer, happend⟩ := (Step.drop_eq_ok fun _ => rfl).1 hrun
    obtain ⟨ref, middle, hadd, hrest⟩ := Step.bind_eq_ok.1 happend
    have hadded := Edit.onlyGrows_of_addInstruction hadd
    -- the new instruction is in no chain, so the chains are those of before
    have hmiddle : middle.Links chains :=
      hlinks.grows (Edit.develops_of_addInstruction hadd).toGrows
    obtain ⟨function?, label⟩ := cursor
    cases function? with
    | none =>
      obtain ⟨-, rfl⟩ := Prod.mk.inj (Except.ok.inj hrest)
      exact hadded
    | some function =>
      obtain ⟨⟨⟩, appended, hlinked, hlast⟩ := Step.bind_eq_ok.1 hrest
      obtain ⟨-, rfl⟩ := Prod.mk.inj (Except.ok.inj hlast)
      exact hadded.trans (Edit.onlyGrows_of_append hmiddle hlinked)
  | pushBack label instruction => exact Edit.onlyGrows_of_pushBack hlinks hrun
  | insertAfter point instruction => exact Edit.onlyGrows_of_insertAfter hlinks hrun

namespace Program

/-- Arenas that are extended keep all entries what they are. -/
theorem OnlyGrows.toExtends {program after : Program} (h : program.OnlyGrows after) :
    program.Extends after where
  types ref entry hentry := by
    obtain ⟨_, hentry', rfl⟩ := h.types ref entry hentry
    exact hentry'
  values ref entry hentry := by
    obtain ⟨_, hentry', rfl⟩ := h.values ref entry hentry
    exact hentry'
  instructions ref entry hentry := by
    obtain ⟨entry', hentry', hpersists⟩ := h.instructions ref entry hentry
    exact ⟨entry', hentry', hpersists.operation⟩
  functions ref entry hentry := by
    obtain ⟨entry', hentry', hpersists⟩ := h.functions ref entry hentry
    exact ⟨entry', hentry', hpersists.name, hpersists.type⟩
  globals ref entry hentry := by
    obtain ⟨entry', hentry', hpersists⟩ := h.globals ref entry hentry
    exact ⟨entry', hentry', hpersists.name, hpersists.initial⟩

/-! ## Whole runs -/

/-- Requests one after the other extend all arenas and all tables. -/
theorem BecomesBy.onlyGrows {allowed : Request → Prop} {program after : Program}
    (hreachable : program.Reachable) (h : program.BecomesBy allowed after) :
    program.OnlyGrows after := by
  refine (h.keeps program.OnlyGrows (fun _ _ request _ hthere hgrows hrun => ?_) hreachable
    (.refl program)).2
  exact hgrows.trans (request.onlyGrows hthere hrun)

/-- The initial program has no instructions, labels and globals, and its functions know their
places. -/
theorem knowsPlaces_initial : KnowsPlaces initial where
  instructions ref entry hentry := by
    have hempty : initial.instructions.size = 0 := by decide +kernel
    exact absurd (Arena.lt_size_of_get? hentry) (by omega)
  labels ref entry hentry := by
    have hempty : initial.labels.size = 0 := by decide +kernel
    exact absurd (Arena.lt_size_of_get? hentry) (by omega)
  functions ref entry hentry := by
    obtain ⟨layout, hbuilt⟩ := Requested.initial.exists_built
    obtain ⟨routine, -, his⟩ := hbuilt.functions ref entry hentry
    exact his.self
  globals ref entry hentry := by
    have hempty : initial.globals.size = 0 := by decide +kernel
    exact absurd (Arena.lt_size_of_get? hentry) (by omega)

/-- However a program has come about, its entries know their places. -/
theorem Reachable.knowsPlaces {program : Program} (h : program.Reachable) :
    program.KnowsPlaces := by
  obtain ⟨requests, hrun⟩ := h.requested
  exact ((becomes_of_runAll hrun).onlyGrows .initial).places knowsPlaces_initial

/-- **Programs only grow.** However a program has come about, its entries know their places, and
whatever requests and lines then make of it extends all its arenas and tables and reads alike
through all references that there were. -/
theorem Reachable.growth {program : Program} (h : program.Reachable) :
    program.KnowsPlaces ∧ ∀ after, program.Leads after →
      after.KnowsPlaces ∧ program.OnlyGrows after ∧ program.ReadsAlike after := by
  refine ⟨h.knowsPlaces, fun after hleads => ?_⟩
  have hbecomes := hleads.becomes h
  have hgrows := hbecomes.onlyGrows h
  exact ⟨(hbecomes.reachable h).knowsPlaces, hgrows, hgrows.toExtends.readsAlike⟩

/-- An instruction that is linked and then asked for its value stays under its label while a line
declares an overload behind a builtin function. -/
theorem growth_linked : ∃ program after,
    Request.runAll [.addInstruction (.alloc ⟨1⟩), .append ⟨0⟩ "a" ⟨0⟩] initial =
      .ok ((), program) ∧
    program.Leads after ∧ program.KnowsPlaces ∧ after.KnowsPlaces ∧ program.OnlyGrows after ∧
    program.ReadsAlike after ∧ program.overloadsOf "random" = [⟨8⟩] ∧
    after.overloadsOf "random" = [⟨8⟩, ⟨13⟩] ∧ after.values.size = 1 ∧
    (after.instructions.get? ⟨0⟩).bind Instruction.label = some ⟨0⟩ := by
  -- a request and a line that declares another overload of a builtin lead on
  have hbuilt : Step.leadsTo
      (Request.runAll [.addInstruction (.alloc ⟨1⟩), .append ⟨0⟩ "a" ⟨0⟩]) initial (fun program =>
        program.overloadsOf "random" = [⟨8⟩] &&
        Step.leadsTo (Request.getResult ⟨0⟩).run program fun middle =>
          Step.leadsTo (LineReader.sourceLine {}) ⟨1, [⟨.identifier, "dec", 1⟩,
            ⟨.identifier, "num", 1⟩, ⟨.identifier, "random", 1⟩, ⟨.identifier, "num", 1⟩,
            ⟨.identifier, "a", 1⟩], middle⟩ fun state =>
              state.program.overloadsOf "random" = [⟨8⟩, ⟨13⟩] &&
              state.program.values.size = 1 &&
              (state.program.instructions.get? ⟨0⟩).bind Instruction.label = some ⟨0⟩) = true := by
    decide +kernel
  obtain ⟨⟨⟩, program, hrun, htest⟩ := Step.exists_of_leadsTo hbuilt
  obtain ⟨hold, hmore⟩ := (Bool.and_eq_true _ _).mp htest
  obtain ⟨⟨⟩, middle, hasked, hmore⟩ := Step.exists_of_leadsTo hmore
  obtain ⟨outcome, state, hline, htest⟩ := Step.exists_of_leadsTo hmore
  simp only [Bool.and_eq_true, decide_eq_true_eq] at hold htest
  have hleads : program.Leads state.program := .line (.request .refl _ hasked) {} 1 _ hline
  obtain ⟨hreachable, -⟩ := Reachable.initial.runAll hrun
  obtain ⟨hplaces, hafter⟩ := hreachable.growth
  obtain ⟨hplaces', hgrows, halike⟩ := hafter state.program hleads
  exact ⟨program, state.program, hrun, hleads, hplaces, hplaces', hgrows, halike, hold,
    htest.1.1, htest.1.2, htest.2⟩

end Program

end ChainIR
