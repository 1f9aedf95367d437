import Mathlib
import ChainIR.Proofs.Chain
import ChainIR.Proofs.Outline.Basic
import ChainIR.Proofs.Types.Resolution

/-! # The layout of a program

`Program.Laid` ties a program to an outline of the instructions in it: which globals and functions
there are, under which names the tables find them, which labels a function has and which
instructions stand under them. Steps that read along a line only add types, values and free
instructions (`Program.Grows`), which no layout notices (`Laid.grows`).

* `Laid.functionOfType?_eq`: a function is found by its prototype.
* `Laid.resolve?_eq`: a call means what `resolveIn` says of the prototypes. -/

namespace ChainIR

/-! ## What stands under a label -/

/-- What stands under the label of a name, nothing if there is no such label. -/
def Routine.under {σ : Type} (name : String) (routine : Routine σ) : List σ :=
  ((routine.blocks.find? fun block => block.name == name).map Block.statements).getD []

namespace Routine

variable {σ : Type}

/-- A name that no label has has nothing under it. -/
theorem under_of_not_mem {name : String} {routine : Routine σ} (h : name ∉ routine.labels) :
    routine.under name = [] := by
  rw [under, List.find?_eq_none.2]
  · rfl
  · intro block hblock hname
    exact h (List.mem_map.2 ⟨block, hblock, by simpa using hname⟩)

/-- A name that a label has has what stands in its block. -/
theorem under_of_mem {routine : Routine σ} (h : routine.labels.Nodup) {block : Block σ}
    (hblock : block ∈ routine.blocks) : routine.under block.name = block.statements := by
  have hfound : (routine.blocks.find? fun other => other.name == block.name).isSome :=
    List.find?_isSome.2 ⟨block, hblock, by simp⟩
  obtain ⟨found, hfind⟩ := Option.isSome_iff_exists.1 hfound
  have hname : found.name = block.name := by simpa using List.find?_some hfind
  obtain rfl : found = block :=
    List.inj_on_of_nodup_map h (List.mem_of_find?_eq_some hfind) hblock hname
  rw [under, hfind]
  rfl

end Routine

namespace Program

/-! ## Growing programs -/

/-- All entries of one program are still what they were in the other, apart from links, results
and what is said of functions besides their names and types. -/
structure Extends (program after : Program) : Prop where
  /-- Types stay. -/
  types : ∀ ref entry, program.types.get? ref = some entry → after.types.get? ref = some entry
  /-- Values stay. -/
  values : ∀ ref entry, program.values.get? ref = some entry →
    after.values.get? ref = some entry
  /-- Instructions go on to do what they did. -/
  instructions : ∀ ref entry, program.instructions.get? ref = some entry →
    ∃ entry', after.instructions.get? ref = some entry' ∧ entry'.operation = entry.operation
  /-- Functions keep their names and types. -/
  functions : ∀ ref entry, program.functions.get? ref = some entry →
    ∃ entry', after.functions.get? ref = some entry' ∧ entry'.name = entry.name ∧
      entry'.type = entry.type
  /-- Globals keep their names and constants. -/
  globals : ∀ ref entry, program.globals.get? ref = some entry →
    ∃ entry', after.globals.get? ref = some entry' ∧ entry'.name = entry.name ∧
      entry'.initial = entry.initial

/-- One program is the other with more types, values and free instructions, and with more results
asked for. -/
structure Grows (program after : Program) : Prop where
  /-- Nothing else has changed. -/
  rest : after = { program with
    types := after.types
    typeNames := after.typeNames
    values := after.values
    instructions := after.instructions }
  /-- Types stay. -/
  types : ∀ ref entry, program.types.get? ref = some entry → after.types.get? ref = some entry
  /-- Values stay. -/
  values : ∀ ref entry, program.values.get? ref = some entry →
    after.values.get? ref = some entry
  /-- Instructions stay, but their results may have been asked for. -/
  instructions : ∀ ref entry, program.instructions.get? ref = some entry →
    ∃ result, after.instructions.get? ref = some { entry with result }
  /-- New instructions are in no chain. -/
  fresh : ∀ ref entry, after.instructions.get? ref = some entry →
    (∃ old, program.instructions.get? ref = some old) ∨ entry.IsFree
  /-- The table of types stays in order. -/
  interned : program.Interned → after.Interned

namespace Extends

variable {program after further : Program}

/-- A program extends itself. -/
@[refl] theorem refl (program : Program) : program.Extends program where
  types _ _ h := h
  values _ _ h := h
  instructions _ entry h := ⟨entry, h, rfl⟩
  functions _ entry h := ⟨entry, h, rfl, rfl⟩
  globals _ entry h := ⟨entry, h, rfl, rfl⟩

/-- Entries that are kept twice over are kept. -/
theorem trans (first : program.Extends after) (second : after.Extends further) :
    program.Extends further where
  types ref entry h := second.types ref entry (first.types ref entry h)
  values ref entry h := second.values ref entry (first.values ref entry h)
  instructions ref entry h := by
    obtain ⟨entry', h', hsame⟩ := first.instructions ref entry h
    obtain ⟨entry'', h'', hsame'⟩ := second.instructions ref entry' h'
    exact ⟨entry'', h'', hsame'.trans hsame⟩
  functions ref entry h := by
    obtain ⟨entry', h', hname, htype⟩ := first.functions ref entry h
    obtain ⟨entry'', h'', hname', htype'⟩ := second.functions ref entry' h'
    exact ⟨entry'', h'', hname'.trans hname, htype'.trans htype⟩
  globals ref entry h := by
    obtain ⟨entry', h', hname, hinitial⟩ := first.globals ref entry h
    obtain ⟨entry'', h'', hname', hinitial'⟩ := second.globals ref entry' h'
    exact ⟨entry'', h'', hname'.trans hname, hinitial'.trans hinitial⟩

/-- Types keep their names. -/
theorem typeName (h : program.Extends after) {ref : TypeRef} {name : String}
    (hname : program.typeName ref = .ok name) : after.typeName ref = .ok name := by
  obtain ⟨entry, hentry, rfl⟩ := typeName_eq_ok.1 hname
  exact typeName_eq_ok.2 ⟨entry, h.types ref entry hentry, rfl⟩

end Extends

namespace Grows

variable {program after further : Program}

/-- A program grows by nothing. -/
@[refl] theorem refl (program : Program) : program.Grows program where
  rest := rfl
  types _ _ h := h
  values _ _ h := h
  instructions _ entry h := ⟨entry.result, h⟩
  fresh _ entry h := .inl ⟨entry, h⟩
  interned h := h

/-- Growth in two parts is growth. -/
theorem trans (first : program.Grows after) (second : after.Grows further) :
    program.Grows further where
  rest := by rw [second.rest, first.rest]
  types ref entry h := second.types ref entry (first.types ref entry h)
  values ref entry h := second.values ref entry (first.values ref entry h)
  instructions ref entry h := by
    obtain ⟨result, h'⟩ := first.instructions ref entry h
    obtain ⟨result', h''⟩ := second.instructions ref _ h'
    exact ⟨result', h''⟩
  fresh ref entry h := by
    rcases second.fresh ref entry h with ⟨middle, hmiddle⟩ | hfree
    · rcases first.fresh ref middle hmiddle with hold | hfree
      · exact .inl hold
      · obtain ⟨result, hresult⟩ := second.instructions ref middle hmiddle
        obtain rfl := Option.some.inj (hresult.symm.trans h)
        exact .inr hfree
    · exact .inr hfree
  interned h := second.interned (first.interned h)

/-- Growth adds no function. -/
theorem functions (h : program.Grows after) : after.functions = program.functions := by
  rw [h.rest]

/-- Growth adds no global. -/
theorem globals (h : program.Grows after) : after.globals = program.globals := by rw [h.rest]

/-- Growth adds no label. -/
theorem labels (h : program.Grows after) : after.labels = program.labels := by rw [h.rest]

/-- The overloads of a name are the same. -/
theorem overloadsOf (h : program.Grows after) (name : String) :
    after.overloadsOf name = program.overloadsOf name := by
  rw [Program.overloadsOf, h.rest]
  rfl

/-- A global is found by its name as before. -/
theorem globalNamed? (h : program.Grows after) (name : String) :
    after.globalNamed? name = program.globalNamed? name := by
  rw [Program.globalNamed?, h.rest]
  rfl

/-- What grows extends. -/
theorem toExtends (h : program.Grows after) : program.Extends after where
  types := h.types
  values := h.values
  instructions ref entry hentry := by
    obtain ⟨result, hresult⟩ := h.instructions ref entry hentry
    exact ⟨_, hresult, rfl⟩
  functions ref entry hentry := ⟨entry, by rw [h.functions, hentry], rfl, rfl⟩
  globals ref entry hentry := ⟨entry, by rw [h.globals, hentry], rfl, rfl⟩

/-- Adding types lets a program grow. -/
theorem of_addsTypes (h : program.AddsTypes after) (interned : after.Interned) :
    program.Grows after := by
  obtain ⟨hrest, htypes⟩ := h
  refine ⟨?_, htypes, ?_, ?_, ?_, fun _ => interned⟩
  · rw [hrest]
  · rw [hrest]
    exact fun _ _ hentry => hentry
  · rw [hrest]
    exact fun _ entry hentry => ⟨entry.result, hentry⟩
  · rw [hrest]
    exact fun _ entry hentry => .inl ⟨entry, hentry⟩

end Grows

/-! ## Layouts -/

/-- The type of a function is the one that a prototype tells of. -/
def PrototypeIs (program : Program) (type : TypeRef) (prototype : Prototype) : Prop :=
  ∃ signature, program.types.get? type = some ⟨prototype.type, .function signature⟩ ∧
    program.typeName signature.result = .ok prototype.result ∧
    List.Forall₂ (fun param name => program.typeName param = .ok name) signature.params
      prototype.params ∧
    signature.variadic = prototype.variadic

/-- A label is a block of a function. -/
structure LabelIs (program : Program) (function : FunctionRef) (label : LabelRef)
    (block : Block InstructionRef) : Prop where
  /-- The label is known by the name of the block. -/
  entry : ∃ entry, program.labels.get? label = some entry ∧ entry.name = block.name ∧
    entry.function = function
  /-- Its chain is what stands in the block. -/
  chain : program.Chained label block.statements

/-- A function is a routine of an outline. -/
structure RoutineIs (program : Program) (ref : FunctionRef) (entry : Function)
    (routine : Routine InstructionRef) : Prop where
  /-- The function knows itself. -/
  self : entry.self = ref
  /-- The name is that of the prototype. -/
  name : entry.name = routine.prototype.name
  /-- The type is that of the prototype. -/
  type : program.PrototypeIs entry.type routine.prototype
  /-- The parameters have their names. -/
  params : entry.params = routine.params
  /-- The labels are the blocks. -/
  labels : List.Forall₂ (program.LabelIs ref) entry.labels routine.blocks
  /-- The labels are found by their names. -/
  labelNames : ∀ name label, entry.labelNames.find? name = some label ↔
    ∃ block, (label, block) ∈ entry.labels.zip routine.blocks ∧ block.name = name

/-- A global is a named literal of an outline. -/
structure GlobalIs (program : Program) (ref : GlobalRef) (entry : Global)
    (binding : String × Literal) : Prop where
  /-- The global knows itself. -/
  self : entry.self = ref
  /-- The name. -/
  name : entry.name = binding.1
  /-- The literal. -/
  literal : entry.initial.literal = binding.2
  /-- The constant has the type of its literal. -/
  type : program.typeName entry.initial.type = .ok binding.2.typeName

/-- The functions of a name in order of declaration. -/
def overloadsIn (prototypes : List Prototype) (name : String) : List FunctionRef :=
  (prototypes.zipIdx.filter fun numbered => numbered.1.name == name).map fun numbered =>
    ⟨numbered.2⟩

/-- **Layouts**: a program holds what an outline of its instructions says. -/
structure Laid (program : Program) (outline : Outline InstructionRef) : Prop where
  /-- The table of types is in order. -/
  interned : program.Interned
  /-- There are as many functions as routines. -/
  functionCount : program.functions.size = outline.routines.length
  /-- There are as many globals as bindings. -/
  globalCount : program.globals.size = outline.globals.length
  /-- Functions are routines. -/
  functions : ∀ ref entry, program.functions.get? ref = some entry →
    ∃ routine, outline.routines[ref.index]? = some routine ∧ program.RoutineIs ref entry routine
  /-- Globals are bindings. -/
  globals : ∀ ref entry, program.globals.get? ref = some entry →
    ∃ binding, outline.globals[ref.index]? = some binding ∧ program.GlobalIs ref entry binding
  /-- Functions are found by their names. -/
  overloads : ∀ name, program.overloadsOf name = overloadsIn outline.prototypes name
  /-- Globals are found by their names. -/
  globalNames : ∀ name ref, program.globalNamed? name = some ref ↔
    ∃ literal, outline.globals[ref.index]? = some (name, literal)
  /-- No two functions have one prototype. -/
  prototypes : outline.prototypes.Nodup
  /-- No two labels of a function have one name. -/
  labels : ∀ routine ∈ outline.routines, routine.labels.Nodup
  /-- Instructions outside of chains have no links. -/
  free : ∀ ref entry, program.instructions.get? ref = some entry → entry.label = none →
    entry.IsFree

/-- Types have one list of names. -/
theorem names_unique {program : Program} {types : List TypeRef} {names names' : List String}
    (h : List.Forall₂ (fun type name => program.typeName type = .ok name) types names)
    (h' : List.Forall₂ (fun type name => program.typeName type = .ok name) types names') :
    names = names' :=
  List.right_unique_forall₂' (fun _ _ _ hleft hright => by simpa [hleft] using hright) h h'

namespace PrototypeIs

variable {program after : Program} {type : TypeRef} {prototype : Prototype}

/-- The type of a prototype has the name that the prototype gives. -/
theorem typeName (h : program.PrototypeIs type prototype) :
    program.typeName type = .ok prototype.type := by
  obtain ⟨signature, hentry, -⟩ := h
  exact typeName_eq_ok.2 ⟨_, hentry, rfl⟩

/-- The signature behind a prototype. -/
theorem signature?_eq (h : program.PrototypeIs type prototype) :
    ∃ signature, program.signature? type = .ok (some signature) ∧
      program.typeName signature.result = .ok prototype.result ∧
      List.Forall₂ (fun param name => program.typeName param = .ok name) signature.params
        prototype.params ∧
      signature.variadic = prototype.variadic := by
  obtain ⟨signature, hentry, hparts⟩ := h
  refine ⟨signature, ?_, hparts⟩
  rw [signature?, show program.type type = .ok _ from found_eq_ok.2 hentry]
  rfl

/-- Types stay what they are in a program that extends another. -/
theorem mono (h : program.PrototypeIs type prototype) (hext : program.Extends after) :
    after.PrototypeIs type prototype := by
  obtain ⟨signature, hentry, hresult, hparams, hvariadic⟩ := h
  exact ⟨signature, hext.types _ _ hentry, hext.typeName hresult,
    hparams.imp fun _ _ => hext.typeName, hvariadic⟩

/-- Functions of one name and one name of the type have one prototype. -/
theorem unique {other : Prototype} {type' : TypeRef} (interned : program.Interned)
    (h : program.PrototypeIs type prototype) (h' : program.PrototypeIs type' other)
    (hname : prototype.name = other.name) (htype : prototype.type = other.type) :
    prototype = other := by
  obtain rfl : type = type' := interned.ref_unique h.typeName (htype ▸ h'.typeName)
  obtain ⟨signature, hentry, hresult, hparams, hvariadic⟩ := h
  obtain ⟨signature', hentry', hresult', hparams', hvariadic'⟩ := h'
  obtain rfl : signature = signature' := by
    simpa [htype] using hentry.symm.trans hentry'
  have hlists := names_unique hparams hparams'
  cases prototype
  cases other
  simp_all

end PrototypeIs

namespace LabelIs

variable {program after : Program} {function : FunctionRef} {label : LabelRef}
  {block : Block InstructionRef}

/-- A label stays what it is as long as its entry and the links of its instructions do. -/
theorem transfer (h : program.LabelIs function label block)
    (hlabel : after.labels.get? label = program.labels.get? label)
    (hinstructions : ∀ ref entry, program.instructions.get? ref = some entry →
      entry.label = some label → ∃ entry', after.instructions.get? ref = some entry' ∧
        entry'.label = entry.label ∧ entry'.previous = entry.previous ∧
        entry'.next = entry.next) :
    after.LabelIs function label block where
  entry := by
    rw [hlabel]
    exact h.entry
  chain := h.chain.transfer hlabel hinstructions

/-- A label stays what it is while its entry and all instructions do. -/
theorem congr (h : program.LabelIs function label block)
    (hlabel : after.labels.get? label = program.labels.get? label)
    (hinstructions : after.instructions = program.instructions) :
    after.LabelIs function label block :=
  h.transfer hlabel fun _ entry hentry _ => ⟨entry, hinstructions ▸ hentry, rfl, rfl, rfl⟩

/-- Growing changes no label. -/
theorem grows (h : program.LabelIs function label block) (hgrows : program.Grows after) :
    after.LabelIs function label block :=
  h.transfer (by rw [hgrows.labels]) fun ref entry hentry _ => by
    obtain ⟨result, hresult⟩ := hgrows.instructions ref entry hentry
    exact ⟨_, hresult, rfl, rfl, rfl⟩

end LabelIs

/-- A function stays what it is as long as its labels do. -/
theorem RoutineIs.transfer {program after : Program} {ref : FunctionRef} {entry : Function}
    {routine : Routine InstructionRef} (h : program.RoutineIs ref entry routine)
    (hext : program.Extends after)
    (hlabels : ∀ label block, program.LabelIs ref label block → after.LabelIs ref label block) :
    after.RoutineIs ref entry routine where
  self := h.self
  name := h.name
  type := h.type.mono hext
  params := h.params
  labels := h.labels.imp hlabels
  labelNames := h.labelNames

/-- A function stays what it is while no label and no instruction changes. -/
theorem RoutineIs.congr {program after : Program} {ref : FunctionRef} {entry : Function}
    {routine : Routine InstructionRef} (h : program.RoutineIs ref entry routine)
    (hext : program.Extends after) (hlabels : after.labels = program.labels)
    (hinstructions : after.instructions = program.instructions) :
    after.RoutineIs ref entry routine :=
  h.transfer hext fun _ _ hlabel => hlabel.congr (by rw [hlabels]) hinstructions

/-- A label that is found by a name is a block of that name. -/
theorem RoutineIs.label_of_find? {program : Program} {ref : FunctionRef} {entry : Function}
    {routine : Routine InstructionRef} (h : program.RoutineIs ref entry routine) {name : String}
    {label : LabelRef} (hfind : entry.labelNames.find? name = some label) :
    label ∈ entry.labels ∧
      ∃ block ∈ routine.blocks, block.name = name ∧ program.LabelIs ref label block := by
  obtain ⟨block, hmem, hname⟩ := (h.labelNames name label).1 hfind
  obtain ⟨hlabel, hblock⟩ := List.of_mem_zip hmem
  exact ⟨hlabel, block, hblock, hname, (List.forall₂_iff_zip.1 h.labels).2 hmem⟩

/-- Every block is a label that is found by its name. -/
theorem RoutineIs.exists_label {program : Program} {ref : FunctionRef} {entry : Function}
    {routine : Routine InstructionRef} (h : program.RoutineIs ref entry routine)
    {block : Block InstructionRef} (hblock : block ∈ routine.blocks) :
    ∃ label ∈ entry.labels, entry.labelNames.find? block.name = some label ∧
      program.LabelIs ref label block := by
  obtain ⟨position, hposition⟩ := List.getElem?_of_mem hblock
  have hlt := (List.getElem?_eq_some_iff.1 hposition).1
  have hlength := h.labels.length_eq
  have hzip : (entry.labels[position], block) ∈ entry.labels.zip routine.blocks :=
    List.mem_of_getElem? (List.getElem?_zip_eq_some.2
      ⟨List.getElem?_eq_getElem (by omega), hposition⟩)
  exact ⟨entry.labels[position], List.getElem_mem _, (h.labelNames _ _).2 ⟨block, hzip, rfl⟩,
    (List.forall₂_iff_zip.1 h.labels).2 hzip⟩

/-- A global stays what it is. -/
theorem GlobalIs.mono {program after : Program} {ref : GlobalRef} {entry : Global}
    {binding : String × Literal} (h : program.GlobalIs ref entry binding)
    (hext : program.Extends after) : after.GlobalIs ref entry binding where
  self := h.self
  name := h.name
  literal := h.literal
  type := hext.typeName h.type

/-! ## Finding functions -/

/-- Candidates are tried in order. -/
theorem firstSuch?_eq {α : Type} {holds : α → Except Fault Bool} {test : α → Bool}
    {candidates : List α} (h : ∀ candidate ∈ candidates, holds candidate = .ok (test candidate)) :
    firstSuch? holds candidates = .ok (candidates.find? test) := by
  induction candidates with
  | nil => rfl
  | cons first rest ih =>
    rw [firstSuch?, h first (by simp), List.find?_cons]
    cases htest : test first
    · exact ih fun candidate hmem => h candidate (by simp [hmem])
    · rfl

/-- The first function of a name with a property is the first of that name and property. -/
theorem find?_overloadsIn (prototypes : List Prototype) (name : String)
    (property : Prototype → Bool) :
    (overloadsIn prototypes name).find? (fun ref => prototypes[ref.index]?.any property) =
      (prototypes.findIdx? fun prototype => prototype.name == name && property prototype).map
        Ref.mk := by
  rw [overloadsIn, List.find?_map, List.find?_filter, List.findIdx?_eq_fst_find?_zipIdx,
    Option.map_map]
  congr 1
  refine List.find?_congr fun numbered hmem => ?_
  rw [Function.comp_apply, List.mem_zipIdx_iff_getElem?.1 hmem]
  simp [Bool.beq_eq_decide_eq]

/-- The functions of a name are functions of the program. -/
theorem mem_overloadsIn {prototypes : List Prototype} {name : String} {ref : FunctionRef}
    (h : ref ∈ overloadsIn prototypes name) :
    ∃ prototype, prototypes[ref.index]? = some prototype ∧ prototype.name = name := by
  obtain ⟨⟨prototype, index⟩, hmem, rfl⟩ := List.mem_map.1 h
  obtain ⟨hmem, hname⟩ := List.mem_filter.1 hmem
  exact ⟨prototype, List.mem_zipIdx_iff_getElem?.1 hmem, by simpa using hname⟩

/-- The function that a call with arguments of the given types means among candidates. -/
def resolveAmong? (program : Program) (candidates : List FunctionRef) (arguments : List TypeRef) :
    Except Fault (Option FunctionRef) := do
  match ← firstSuch? (program.functionAccepts (·.takesExactly arguments)) candidates with
  | some ref => return some ref
  | none => firstSuch? (program.functionAccepts (·.takesVariadically arguments)) candidates

/-- The candidates for a call of a name are all functions of the name. -/
theorem resolve?_eq_among (program : Program) (name : String) (arguments : List TypeRef) :
    program.resolve? name arguments = program.resolveAmong? (program.overloadsOf name) arguments :=
  rfl

/-- The first functions of a name are those with a small number. -/
theorem overloadsIn_take (prototypes : List Prototype) (count : Nat) (name : String) :
    overloadsIn (prototypes.take count) name =
      (overloadsIn prototypes name).filter fun ref => ref.index < count := by
  -- the places behind the cut are counted on from its length
  have hsplit : prototypes.zipIdx =
      (prototypes.take count).zipIdx ++
        (prototypes.drop count).zipIdx (prototypes.take count).length := by
    rw [← Nat.zero_add (prototypes.take count).length, ← List.zipIdx_append, List.take_append_drop]
  have hfront : ∀ numbered ∈ (prototypes.take count).zipIdx, numbered.2 < count := by
    intro numbered hmem
    have hlt := List.snd_lt_of_mem_zipIdx hmem
    rw [List.length_take] at hlt
    omega
  have hback : ∀ numbered ∈ (prototypes.drop count).zipIdx (prototypes.take count).length,
      ¬ numbered.2 < count := by
    intro numbered hmem
    have hle := List.le_snd_of_mem_zipIdx hmem
    have hlt := List.snd_lt_of_mem_zipIdx hmem
    rw [List.length_take, List.length_drop] at hlt
    rw [List.length_take] at hle
    omega
  have hkept : (overloadsIn (prototypes.take count) name).filter (fun ref => ref.index < count) =
      overloadsIn (prototypes.take count) name := by
    refine List.filter_eq_self.2 fun ref hmem => ?_
    obtain ⟨numbered, hnumbered, rfl⟩ := List.mem_map.1 hmem
    simpa using hfront numbered (List.mem_filter.1 hnumbered).1
  rw [overloadsIn.eq_def prototypes, hsplit, List.filter_append, List.map_append,
    List.filter_append, ← overloadsIn, hkept, List.self_eq_append_right, List.filter_eq_nil_iff]
  intro ref hmem
  obtain ⟨numbered, hnumbered, rfl⟩ := List.mem_map.1 hmem
  simpa using hback numbered (List.mem_filter.1 hnumbered).1

/-- Types are compared by their names. -/
theorem Interned.beq_eq {program : Program} (h : program.Interned) {left right : TypeRef}
    {name name' : String} (hleft : program.typeName left = .ok name)
    (hright : program.typeName right = .ok name') : (left == right) = (name == name') := by
  by_cases hequal : left = right
  · subst hequal
    simpa [hleft] using hright
  · have : name ≠ name' := fun hsame => hequal (h.ref_unique hleft (hsame ▸ hright))
    simp [hequal, this]

/-- Lists of types are compared by their names. -/
theorem Interned.list_beq_eq {program : Program} (h : program.Interned)
    {left right : List TypeRef} {names names' : List String}
    (hleft : List.Forall₂ (fun type name => program.typeName type = .ok name) left names)
    (hright : List.Forall₂ (fun type name => program.typeName type = .ok name) right names') :
    (left == right) = (names == names') := by
  induction hleft generalizing right names' with
  | nil => cases hright <;> rfl
  | cons hfirst _ ih =>
    cases hright with
    | nil => rfl
    | cons hfirst' hrest' => rw [List.cons_beq_cons, List.cons_beq_cons, h.beq_eq hfirst hfirst',
        ih hrest']

/-- Whether types come first in a list is decided by their names. -/
theorem Interned.isPrefixOf_eq {program : Program} (h : program.Interned)
    {left right : List TypeRef} {names names' : List String}
    (hleft : List.Forall₂ (fun type name => program.typeName type = .ok name) left names)
    (hright : List.Forall₂ (fun type name => program.typeName type = .ok name) right names') :
    left.isPrefixOf right = names.isPrefixOf names' := by
  induction hleft generalizing right names' with
  | nil => simp
  | cons hfirst _ ih =>
    cases hright with
    | nil => rfl
    | cons hfirst' hrest' =>
      rw [List.isPrefixOf_cons_cons, List.isPrefixOf_cons_cons, h.beq_eq hfirst hfirst', ih hrest']

/-- Whether a function accepts a call is decided by its prototype. -/
theorem functionAccepts_eq {program : Program} {ref : FunctionRef} {entry : Function}
    {prototype : Prototype} (hentry : program.functions.get? ref = some entry)
    (htype : program.PrototypeIs entry.type prototype) {property : Signature → Bool} {answer : Bool}
    (hproperty : ∀ signature : Signature,
      List.Forall₂ (fun param name => program.typeName param = .ok name) signature.params
        prototype.params → signature.variadic = prototype.variadic →
      property signature = answer) :
    program.functionAccepts property ref = .ok answer := by
  obtain ⟨signature, hsignature, -, hparams, hvariadic⟩ := htype.signature?_eq
  rw [functionAccepts, show program.function ref = .ok entry from found_eq_ok.2 hentry]
  simp [bind, Except.bind, hsignature, hproperty signature hparams hvariadic, pure, Except.pure]

namespace Laid

variable {program after : Program} {outline : Outline InstructionRef}

/-- No layout notices that a program grows. -/
theorem grows (h : program.Laid outline) (hgrows : program.Grows after) : after.Laid outline where
  interned := hgrows.interned h.interned
  functionCount := by rw [hgrows.functions, h.functionCount]
  globalCount := by rw [hgrows.globals, h.globalCount]
  functions ref entry hentry := by
    obtain ⟨routine, hroutine, his⟩ := h.functions ref entry (hgrows.functions ▸ hentry)
    exact ⟨routine, hroutine, his.transfer hgrows.toExtends fun _ _ hlabel => hlabel.grows hgrows⟩
  globals ref entry hentry := by
    obtain ⟨binding, hbinding, his⟩ := h.globals ref entry (hgrows.globals ▸ hentry)
    exact ⟨binding, hbinding, his.mono hgrows.toExtends⟩
  overloads name := by rw [hgrows.overloadsOf, h.overloads]
  globalNames name ref := by rw [hgrows.globalNamed?, h.globalNames]
  prototypes := h.prototypes
  labels := h.labels
  free ref entry hentry hlabel := by
    rcases hgrows.fresh ref entry hentry with ⟨old, hold⟩ | hfree
    · obtain ⟨result, hresult⟩ := hgrows.instructions ref old hold
      obtain rfl := Option.some.inj (hresult.symm.trans hentry)
      exact h.free ref old hold hlabel
    · exact hfree

/-- Every routine of the layout is a function. -/
theorem function_of_routine (h : program.Laid outline) {index : Nat}
    {routine : Routine InstructionRef} (hroutine : outline.routines[index]? = some routine) :
    ∃ entry, program.functions.get? ⟨index⟩ = some entry ∧
      program.RoutineIs ⟨index⟩ entry routine := by
  have hlt : index < program.functions.size := by
    rw [h.functionCount]
    exact (List.getElem?_eq_some_iff.1 hroutine).1
  obtain ⟨entry, hentry⟩ :=
    Option.isSome_iff_exists.1 ((Arena.get?_isSome_iff program.functions ⟨index⟩).2 hlt)
  obtain ⟨routine', hroutine', his⟩ := h.functions ⟨index⟩ entry hentry
  obtain rfl := Option.some.inj (hroutine'.symm.trans hroutine)
  exact ⟨entry, hentry, his⟩

/-- Every prototype of the layout belongs to a function. -/
theorem function_of_prototype (h : program.Laid outline) {index : Nat} {prototype : Prototype}
    (hprototype : outline.prototypes[index]? = some prototype) :
    ∃ entry, program.functions.get? ⟨index⟩ = some entry ∧ entry.name = prototype.name ∧
      program.PrototypeIs entry.type prototype := by
  rw [Outline.prototypes, List.getElem?_map, Option.map_eq_some_iff] at hprototype
  obtain ⟨routine, hroutine, rfl⟩ := hprototype
  obtain ⟨entry, hentry, his⟩ := h.function_of_routine hroutine
  exact ⟨entry, hentry, his.name, his.type⟩

/-- Looking for a function of a name, among the first functions, by a property that its prototype
decides. -/
theorem firstSuch?_overloadsIn (h : program.Laid outline) {prototypes : List Prototype}
    (hinitial : prototypes <+: outline.prototypes) (name : String)
    (holds : FunctionRef → Except Fault Bool) (property : Prototype → Bool)
    (hholds : ∀ ref entry prototype, program.functions.get? ref = some entry →
      program.PrototypeIs entry.type prototype → prototype.name = name →
      holds ref = .ok (property prototype)) :
    firstSuch? holds (overloadsIn prototypes name) =
      .ok ((prototypes.findIdx? fun prototype =>
        prototype.name == name && property prototype).map Ref.mk) := by
  rw [← find?_overloadsIn]
  refine firstSuch?_eq fun ref hmem => ?_
  obtain ⟨prototype, hprototype, hname⟩ := mem_overloadsIn hmem
  have hwhole : outline.prototypes[ref.index]? = some prototype := by
    obtain ⟨rest, hrest⟩ := hinitial
    rw [← hrest, List.getElem?_append_left (List.getElem?_eq_some_iff.1 hprototype).1, hprototype]
  obtain ⟨entry, hentry, -, htype⟩ := h.function_of_prototype hwhole
  rw [hholds ref entry prototype hentry htype hname, hprototype, Option.any_some]

/-- A function is found by its prototype. -/
theorem functionOfType?_eq (h : program.Laid outline) {type : TypeRef} {prototype : Prototype}
    (htype : program.PrototypeIs type prototype) :
    program.functionOfType? prototype.name type =
      .ok ((outline.prototypes.findIdx? (· == prototype)).map Ref.mk) := by
  have hsame : (fun other : Prototype => other.name == prototype.name && other == prototype) =
      (· == prototype) := by
    funext other
    by_cases hequal : other = prototype <;> simp [hequal]
  rw [functionOfType?, h.overloads, h.firstSuch?_overloadsIn List.prefix_rfl _ _ (· == prototype),
    hsame]
  intro ref entry other hentry hother hname
  rw [show program.function ref = .ok entry from found_eq_ok.2 hentry]
  show Except.ok (entry.type == type) = .ok (other == prototype)
  rw [h.interned.beq_eq hother.typeName htype.typeName]
  by_cases hequal : other = prototype
  · simp [hequal]
  · have : other.type ≠ prototype.type := fun htypes =>
      hequal (hother.unique h.interned htype hname htypes)
    simp [hequal, this]

/-- A call that may mean some of the first functions means what their prototypes say. -/
theorem resolveAmong?_eq (h : program.Laid outline) {prototypes : List Prototype}
    (hinitial : prototypes <+: outline.prototypes) (name : String) {types : List TypeRef}
    {names : List String}
    (htypes : List.Forall₂ (fun type name => program.typeName type = .ok name) types names) :
    program.resolveAmong? (overloadsIn prototypes name) types =
      .ok (resolveIn prototypes name names) := by
  -- the two searches of the program are the two searches among the prototypes
  have hexact := h.firstSuch?_overloadsIn hinitial name
    (program.functionAccepts (·.takesExactly types))
    (fun prototype => !prototype.variadic && prototype.params == names)
    fun ref entry prototype hentry htype _ => functionAccepts_eq hentry htype
      fun signature hparams hvariadic => by
        rw [Signature.takesExactly, hvariadic, h.interned.list_beq_eq hparams htypes]
  have hvariadic := h.firstSuch?_overloadsIn hinitial name
    (program.functionAccepts (·.takesVariadically types))
    (fun prototype => prototype.variadic && prototype.params.isPrefixOf names)
    fun ref entry prototype hentry htype _ => functionAccepts_eq hentry htype
      fun signature hparams hvariadic => by
        rw [Signature.takesVariadically, hvariadic, h.interned.isPrefixOf_eq hparams htypes]
  simp only [resolveAmong?, hexact, hvariadic, resolveIn, bind, Except.bind, pure, Except.pure]
  cases hfirst : prototypes.findIdx? fun prototype =>
      prototype.name == name && (!prototype.variadic && prototype.params == names) with
  | none =>
    have : prototypes.findIdx? (Prototype.takesExactly name names) = none := hfirst
    rw [this]
    rfl
  | some index =>
    have : prototypes.findIdx? (Prototype.takesExactly name names) = some index := hfirst
    rw [this]
    rfl

/-- **Calls by prototypes**: a call means what the prototypes say. -/
theorem resolve?_eq (h : program.Laid outline) (name : String) {types : List TypeRef}
    {names : List String}
    (htypes : List.Forall₂ (fun type name => program.typeName type = .ok name) types names) :
    program.resolve? name types = .ok (resolveIn outline.prototypes name names) := by
  rw [resolve?_eq_among, h.overloads]
  exact h.resolveAmong?_eq List.prefix_rfl name htypes

/-- The instructions under a label of a function are those of its layout. -/
theorem chainNamed_eq (h : program.Laid outline) {function : FunctionRef}
    {routine : Routine InstructionRef} (hroutine : outline.routines[function.index]? = some routine)
    (name : String) : program.chainNamed function name = .ok (routine.under name) := by
  obtain ⟨entry, hentry, his⟩ := h.function_of_routine hroutine
  have hnodup := h.labels routine (List.mem_of_getElem? hroutine)
  have hfunction : program.function function = .ok entry := found_eq_ok.2 hentry
  simp only [chainNamed, labelNamed?, hfunction, bind, Except.bind, pure, Except.pure]
  cases hfind : entry.labelNames.find? name with
  | some label =>
    obtain ⟨-, block, hblock, rfl, hlabel⟩ := his.label_of_find? hfind
    rw [Routine.under_of_mem hnodup hblock]
    exact hlabel.chain.chain_eq
  | none =>
    rw [Routine.under_of_not_mem]
    intro hmem
    obtain ⟨block, hblock, rfl⟩ := List.mem_map.1 hmem
    obtain ⟨label, -, hfound, -⟩ := his.exists_label hblock
    exact absurd (hfind.symm.trans hfound) (by simp)

end Laid

end Program

end ChainIR
