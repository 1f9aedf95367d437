import Mathlib
import ChainIR.Proofs.Reading.Described
import ChainIR.Proofs.Reading.Invariant

/-! # Symbol tables

However a program has come about, by requests or by reading a source (`Program.Reachable`), its
symbol tables agree with its arenas (`Program.SymbolsAgree`): the entries know their own places,
the functions of a name are found in order of declaration, a function is found by its name and
type, and a global by its name. -/

namespace ChainIR

/-- Entries that know their places are listed at their places. -/
theorem Arena.map_self_eq_refs {κ : Type} {tag : κ} {α : Type} {arena : Arena tag α}
    {self : α → Ref tag} (h : ∀ ref entry, arena.get? ref = some entry → self entry = ref) :
    arena.entries.toList.map self = arena.refs := by
  apply List.ext_getElem
  · simp [refs, size]
  · intro index hleft hright
    have hlt : index < arena.entries.size := by simpa using hleft
    simpa [refs] using h ⟨index⟩ arena.entries[index] (Array.getElem?_eq_getElem hlt)

/-- The references of an arena are those that find something. -/
theorem Arena.mem_refs {κ : Type} {tag : κ} {α : Type} {arena : Arena tag α} {ref : Ref tag} :
    ref ∈ arena.refs ↔ ∃ entry, arena.get? ref = some entry := by
  rw [← Option.isSome_iff_exists, get?_isSome_iff, refs, List.mem_map]
  constructor
  · rintro ⟨index, hindex, rfl⟩
    exact List.mem_range.1 hindex
  · exact fun hlt => ⟨ref.index, List.mem_range.2 hlt, rfl⟩

/-- The references of an arena whose entries pass a test are those that find such an entry. -/
theorem Arena.mem_filter_refs {κ : Type} {tag : κ} {α : Type} {arena : Arena tag α} {test : α → Bool}
    {ref : Ref tag} : ref ∈ arena.refs.filter (fun ref => (arena.get? ref).any test) ↔
      ∃ entry, arena.get? ref = some entry ∧ test entry := by
  rw [List.mem_filter, mem_refs, Option.any_eq_true]
  constructor
  · rintro ⟨-, entry, hentry, htest⟩
    exact ⟨entry, hentry, htest⟩
  · rintro ⟨entry, hentry, htest⟩
    exact ⟨⟨entry, hentry⟩, entry, hentry, htest⟩

namespace Program

/-! ## Programs that can come about -/

/-- **Programs that can come about**: the initial one, what accepted sources give, and whatever
successful requests make of them. -/
inductive Reachable : Program → Prop
  /-- The initial program. -/
  | initial : Reachable initial
  /-- An accepted source. -/
  | read {source : Source} {program : Program}
    (accepted : (Reading.ofSource source).result = .ok program) : Reachable program
  /-- A successful request. -/
  | request {program after : Program} (reachable : Reachable program) (request : Request)
    (success : request.run program = .ok ((), after)) : Reachable after

/-- Requests alone can build any program that can come about. -/
theorem Reachable.requested {program : Program} (h : program.Reachable) : program.Requested := by
  induction h with
  | initial => exact .initial
  | read accepted =>
    obtain ⟨_, _, _, _, -, hdescribes⟩ := Reading.exists_survey_of_ok accepted
    exact hdescribes.read.requested
  | request _ _ success ih => exact ih.run success

/-! ## Tables of laid out programs -/

/-- The symbol tables of a program agree with its arenas. -/
structure SymbolsAgree (program : Program) : Prop where
  /-- The functions are listed at their places. -/
  functionRefs : program.functionRefs = program.functions.refs
  /-- The globals are listed at their places. -/
  globalRefs : program.globalRefs = program.globals.refs
  /-- The functions of a name are those among all functions that have the name, in order of
  declaration. -/
  overloads : ∀ name, program.overloadsOf name = program.functionRefs.filter fun ref =>
    (program.functions.get? ref).any (·.name = name)
  /-- No two functions have one name and one type. -/
  functions : ∀ left right entry entry', program.functions.get? left = some entry →
    program.functions.get? right = some entry' → entry.name = entry'.name →
    entry.type = entry'.type → left = right
  /-- A function is found exactly by its name and type. -/
  functionOfType : ∀ name type, ∃ found, program.functionOfType? name type = .ok found ∧
    ∀ ref, found = some ref ↔ ref ∈ program.functionRefs ∧
      ∃ entry, program.functions.get? ref = some entry ∧ entry.name = name ∧ entry.type = type
  /-- The type of a function is a function type. -/
  signatures : ∀ ref entry, program.functions.get? ref = some entry →
    ∃ signature, program.signature? entry.type = .ok (some signature)
  /-- The builtin functions stand in front. -/
  builtins : List.Forall₂ (fun ref prototype => ∃ entry,
    program.functions.get? ref = some entry ∧ entry.name = prototype.name ∧
      program.PrototypeIs entry.type prototype) (program.functionRefs.take builtinCount)
    builtinPrototypes
  /-- A global is found exactly by its name. -/
  globalNamed : ∀ name ref, program.globalNamed? name = some ref ↔ ref ∈ program.globalRefs ∧
    ∃ entry, program.globals.get? ref = some entry ∧ entry.name = name
  /-- No two globals have one name. -/
  globals : ∀ left right entry entry', program.globals.get? left = some entry →
    program.globals.get? right = some entry' → entry.name = entry'.name → left = right

namespace Laid

variable {program : Program} {layout : Outline InstructionRef} (h : program.Laid layout)

include h

/-- The functions are listed at their places. -/
theorem functionRefs_eq : program.functionRefs = program.functions.refs := by
  refine Arena.map_self_eq_refs fun ref entry hentry => ?_
  obtain ⟨routine, -, his⟩ := h.functions ref entry hentry
  exact his.self

/-- The globals are listed at their places. -/
theorem globalRefs_eq : program.globalRefs = program.globals.refs := by
  refine Arena.map_self_eq_refs fun ref entry hentry => ?_
  obtain ⟨binding, -, his⟩ := h.globals ref entry hentry
  exact his.self

/-- A function has the name of its prototype. -/
theorem any_name_eq {index : Nat} {prototype : Prototype}
    (hprototype : layout.prototypes[index]? = some prototype) (name : String) :
    (program.functions.get? ⟨index⟩).any (·.name = name) = (prototype.name == name) := by
  obtain ⟨entry, hentry, hname, -⟩ := h.function_of_prototype hprototype
  rw [hentry, Option.any_some, hname, beq_eq_decide]

/-- The functions of a name are those among all functions that have the name. -/
theorem overloadsOf_eq (name : String) : program.overloadsOf name =
    program.functionRefs.filter fun ref => (program.functions.get? ref).any (·.name = name) := by
  -- numbered, the prototypes are the functions in their order
  have hrefs : program.functionRefs =
      layout.prototypes.zipIdx.map fun numbered => ⟨numbered.2⟩ := by
    have hsize : program.functions.size = layout.prototypes.length := by
      rw [h.functionCount, layout.length_prototypes]
    have hnumbers : layout.prototypes.zipIdx.map Prod.snd =
        List.range layout.prototypes.length := by
      rw [List.zipIdx_map_snd, List.range_eq_range']
    rw [h.functionRefs_eq, Arena.refs, hsize, ← hnumbers, List.map_map]
    rfl
  rw [h.overloads, overloadsIn, hrefs, List.filter_map]
  congr 1
  refine List.filter_congr fun numbered hmem => ?_
  exact (h.any_name_eq (List.mem_zipIdx_iff_getElem?.1 hmem) name).symm

/-- No two functions have one name and one type. -/
theorem function_unique {left right : FunctionRef} {entry entry' : Function}
    (hleft : program.functions.get? left = some entry)
    (hright : program.functions.get? right = some entry') (hname : entry.name = entry'.name)
    (htype : entry.type = entry'.type) : left = right := by
  obtain ⟨routine, hroutine, his⟩ := h.functions left entry hleft
  obtain ⟨routine', hroutine', his'⟩ := h.functions right entry' hright
  have htypes : routine.prototype.type = routine'.prototype.type :=
    Except.ok.inj (his.type.typeName.symm.trans (htype ▸ his'.type.typeName))
  have hsame : routine.prototype = routine'.prototype :=
    his.type.unique h.interned his'.type (his.name.symm.trans (hname.trans his'.name)) htypes
  -- a prototype stands at one place
  have hplace := Outline.prototype_of_routine hroutine
  rw [hsame] at hplace
  exact Ref.eq_of_index
    (Outline.index_unique h.prototypes hplace (Outline.prototype_of_routine hroutine'))

/-- A function is found exactly by its name and type. -/
theorem exists_functionOfType? (name : String) (type : TypeRef) :
    ∃ found, program.functionOfType? name type = .ok found ∧
      ∀ ref, found = some ref ↔ ref ∈ program.functionRefs ∧
        ∃ entry, program.functions.get? ref = some entry ∧ entry.name = name ∧
          entry.type = type := by
  -- the search goes over the functions of the name, and it is for their types
  have hcandidate : ∀ ref, ref ∈ program.overloadsOf name ↔
      ∃ entry, program.functions.get? ref = some entry ∧ entry.name = name := by
    intro ref
    rw [h.overloadsOf_eq, h.functionRefs_eq, Arena.mem_filter_refs]
    simp only [decide_eq_true_eq]
  have hfirst : program.functionOfType? name type = .ok ((program.overloadsOf name).find?
      fun ref => (program.functions.get? ref).any (·.type == type)) := by
    refine firstSuch?_eq fun ref hmem => ?_
    obtain ⟨entry, hentry, -⟩ := (hcandidate ref).1 hmem
    rw [show program.function ref = .ok entry from found_eq_ok.2 hentry, hentry]
    rfl
  refine ⟨_, hfirst, fun ref => ⟨fun hfound => ?_, ?_⟩⟩
  · obtain ⟨entry, hentry, hname⟩ := (hcandidate ref).1 (List.mem_of_find?_eq_some hfound)
    have htype := List.find?_some hfound
    rw [hentry, Option.any_some] at htype
    refine ⟨?_, entry, hentry, hname, eq_of_beq htype⟩
    rw [h.functionRefs_eq, Arena.mem_refs]
    exact ⟨entry, hentry⟩
  · rintro ⟨-, entry, hentry, hname, rfl⟩
    have hfound : ((program.overloadsOf name).find?
        fun other => (program.functions.get? other).any (·.type == entry.type)).isSome :=
      List.find?_isSome.2 ⟨ref, (hcandidate ref).2 ⟨entry, hentry, hname⟩, by simp [hentry]⟩
    obtain ⟨other, hother⟩ := Option.isSome_iff_exists.1 hfound
    -- what is found has the same name and the same type
    obtain ⟨entry', hentry', hname'⟩ := (hcandidate other).1 (List.mem_of_find?_eq_some hother)
    have htype := List.find?_some hother
    rw [hentry', Option.any_some] at htype
    rw [hother, h.function_unique hentry' hentry (hname'.trans hname.symm) (eq_of_beq htype)]

/-- A global is found exactly by its name. -/
theorem globalNamed?_iff {name : String} {ref : GlobalRef} :
    program.globalNamed? name = some ref ↔
      ∃ entry, program.globals.get? ref = some entry ∧ entry.name = name := by
  rw [h.globalNames]
  constructor
  · rintro ⟨literal, hbinding⟩
    have hlt : ref.index < program.globals.size := by
      rw [h.globalCount]
      exact (List.getElem?_eq_some_iff.1 hbinding).1
    obtain ⟨entry, hentry⟩ :=
      Option.isSome_iff_exists.1 ((Arena.get?_isSome_iff program.globals ref).2 hlt)
    obtain ⟨binding, hbinding', his⟩ := h.globals ref entry hentry
    obtain rfl := Option.some.inj (hbinding.symm.trans hbinding')
    exact ⟨entry, hentry, his.name⟩
  · rintro ⟨entry, hentry, rfl⟩
    obtain ⟨⟨name, literal⟩, hbinding, his⟩ := h.globals ref entry hentry
    exact ⟨literal, by rw [hbinding, his.name]⟩

/-- Functions stand in the order of their prototypes. -/
theorem forall₂_prototypes : List.Forall₂ (fun ref prototype => ∃ entry,
    program.functions.get? ref = some entry ∧ entry.name = prototype.name ∧
      program.PrototypeIs entry.type prototype) program.functionRefs layout.prototypes := by
  rw [h.functionRefs_eq, List.forall₂_iff_get]
  constructor
  · simp [Arena.refs, h.functionCount, layout.length_prototypes]
  · intro index hleft hright
    obtain ⟨entry, hentry⟩ := h.function_of_prototype (List.getElem?_eq_getElem hright)
    exact ⟨entry, by simpa [Arena.refs] using hentry⟩

end Laid

/-- The symbol tables of a program that requests have built agree with its arenas. -/
theorem Built.symbols {program : Program} {layout : Outline InstructionRef}
    (h : program.Built layout) : program.SymbolsAgree where
  functionRefs := h.functionRefs_eq
  globalRefs := h.globalRefs_eq
  overloads := h.overloadsOf_eq
  functions left right entry entry' := h.function_unique
  functionOfType := h.exists_functionOfType?
  signatures ref entry hentry := by
    obtain ⟨routine, -, his⟩ := h.functions ref entry hentry
    obtain ⟨signature, hsignature, -⟩ := his.type.signature?_eq
    exact ⟨signature, hsignature⟩
  builtins := by
    -- the builtin functions are the first ones of the program
    have hall := List.forall₂_take builtinCount h.forall₂_prototypes
    rw [← length_builtinPrototypes, ← List.prefix_iff_eq_take.1 h.builtins] at hall
    exact hall
  globalNamed name ref := by
    rw [h.globalNamed?_iff, h.globalRefs_eq, Arena.mem_refs]
    constructor
    · rintro ⟨entry, hentry, hname⟩
      exact ⟨⟨entry, hentry⟩, entry, hentry, hname⟩
    · exact fun hnamed => hnamed.2
  globals left right entry entry' hleft hright hname := by
    have hfound := h.globalNamed?_iff.2 ⟨entry, hleft, rfl⟩
    have hfound' := h.globalNamed?_iff.2 ⟨entry', hright, hname.symm⟩
    exact Option.some.inj (hfound.symm.trans hfound')

/-- **Symbol tables agree with the arenas**, however a program has come about. -/
theorem Reachable.symbolsAgree {program : Program} (h : program.Reachable) :
    program.SymbolsAgree := by
  obtain ⟨layout, hbuilt⟩ := h.requested.exists_built
  exact hbuilt.symbols

/-- Overloads of one name, and a global that is defined behind them. -/
theorem symbolsAgree_overloads : ∃ program after,
    (Reading.ofText "dec num f num a\ndec num f\n").result = .ok program ∧
      (Request.define "f" (.str "x")).run program = .ok ((), after) ∧ after.SymbolsAgree ∧
      after.overloadsOf "f" = [⟨13⟩, ⟨14⟩] ∧ after.globalNamed? "f" = some ⟨0⟩ := by
  have haccepted : Reading.accepts "dec num f num a\ndec num f\n" fun program =>
      Step.leadsTo (Request.define "f" (.str "x")).run program fun after =>
        after.overloadsOf "f" = [⟨13⟩, ⟨14⟩] ∧ after.globalNamed? "f" = some ⟨0⟩ := by
    decide +kernel
  obtain ⟨program, hread, htest⟩ := Reading.exists_of_accepts haccepted
  obtain ⟨⟨⟩, after, hrun, htest⟩ := Step.exists_of_leadsTo htest
  obtain ⟨hoverloads, hglobal⟩ := of_decide_eq_true htest
  have hreachable : after.Reachable := .request (.read hread) _ hrun
  exact ⟨program, after, hread, hrun, hreachable.symbolsAgree, hoverloads, hglobal⟩

end Program

end ChainIR
