import Mathlib
import ChainIR.Proofs.Step
import ChainIR.Proofs.Types.Tree

/-! # The table of types

A program keeps one entry for each type (`Program.Interned`): the table finds every entry under its
name, and the name is the canonical name of the shape. As canonical names tell types apart, asking
for a type gives one of exactly that shape, new or old (`intern_yields`), and nothing else in the
program changes (`AddsTypes`). -/

namespace ChainIR

/-- Signatures of the same parts are one signature. -/
theorem Signature.eq_of_parts {left right : Signature} (result : left.result = right.result)
    (params : left.params = right.params) (variadic : left.variadic = right.variadic) :
    left = right := by
  cases left
  cases right
  simp_all

/-! ## Shapes, names and the table -/

namespace Program

/-- A shape is the outermost constructor of a type, over entries of the names of its parts. -/
def HasShape (program : Program) : TypeShape → TypeTree → Prop
  | .void, .void => True
  | .num, .num => True
  | .chr, .chr => True
  | .str, .str => True
  | .array element size, .array elementTree size' =>
    size = size' ∧ program.typeName element = .ok elementTree.name
  | .function signature, .function result params variadic =>
    signature.variadic = variadic ∧ program.typeName signature.result = .ok result.name ∧
      List.Forall₂ (fun param tree => program.typeName param = .ok tree.name)
        signature.params params
  | _, _ => False

/-- **Interned types**: the entries of the types and their table belong together. -/
structure Interned (program : Program) : Prop where
  /-- The table finds every type under its name. -/
  listed : ∀ ref entry, program.types.get? ref = some entry →
    program.typeNames.find? entry.name = some ref
  /-- Whatever the table finds has the name that was asked for. -/
  stored : ∀ name ref, program.typeNames.find? name = some ref →
    ∃ entry, program.types.get? ref = some entry ∧ entry.name = name
  /-- Every type has the canonical name of its shape. -/
  rendered : ∀ ref entry, program.types.get? ref = some entry →
    ∃ tree, entry.name = tree.name ∧ program.HasShape entry.shape tree

/-- One program is the other with more types. -/
structure AddsTypes (program extended : Program) : Prop where
  /-- Nothing but types has been added. -/
  rest : extended =
    { program with types := extended.types, typeNames := extended.typeNames }
  /-- All types are still there. -/
  types : ∀ ref entry, program.types.get? ref = some entry →
    extended.types.get? ref = some entry

namespace AddsTypes

variable {program extended further : Program}

/-- A program adds no types to itself. -/
@[refl] theorem refl (program : Program) : program.AddsTypes program := ⟨rfl, fun _ _ h => h⟩

/-- Types are added in turn. -/
theorem trans (first : program.AddsTypes extended) (second : extended.AddsTypes further) :
    program.AddsTypes further where
  rest := by rw [second.rest, first.rest]
  types ref entry h := second.types ref entry (first.types ref entry h)

end AddsTypes

/-- A type has a name exactly when it has an entry of that name. -/
theorem typeName_eq_ok {program : Program} {ref : TypeRef} {name : String} :
    program.typeName ref = .ok name ↔
      ∃ entry, program.types.get? ref = some entry ∧ entry.name = name := by
  rw [typeName, type]
  cases program.types.get? ref with
  | none => simp [found, bind, Except.bind]
  | some entry => simp [found, bind, Except.bind, pure, Except.pure]

/-- Types keep their names when types are added. -/
theorem AddsTypes.typeName {program extended : Program} (h : program.AddsTypes extended)
    {ref : TypeRef} {name : String} (hname : program.typeName ref = .ok name) :
    extended.typeName ref = .ok name := by
  obtain ⟨entry, hentry, rfl⟩ := typeName_eq_ok.1 hname
  exact typeName_eq_ok.2 ⟨entry, h.types ref entry hentry, rfl⟩

/-- Shapes keep their meaning when types are added. -/
theorem AddsTypes.hasShape {program extended : Program} (h : program.AddsTypes extended)
    {shape : TypeShape} {tree : TypeTree} (hshape : program.HasShape shape tree) :
    extended.HasShape shape tree := by
  cases shape <;> cases tree <;> simp only [HasShape] at hshape ⊢
  · exact ⟨hshape.1, h.typeName hshape.2⟩
  · exact ⟨hshape.1, h.typeName hshape.2.1, hshape.2.2.imp fun _ _ => h.typeName⟩

namespace Interned

variable {program : Program} (h : program.Interned)

include h

/-- Two types of one name are one type. -/
theorem ref_unique {left right : TypeRef} {name : String}
    (hleft : program.typeName left = .ok name) (hright : program.typeName right = .ok name) :
    left = right := by
  obtain ⟨entry, hentry, rfl⟩ := typeName_eq_ok.1 hleft
  obtain ⟨entry', hentry', hname⟩ := typeName_eq_ok.1 hright
  have := h.listed right entry' hentry'
  rw [hname, h.listed left entry hentry] at this
  exact Option.some.inj this

/-- A type of some name is found by the table. -/
theorem find?_of_typeName {ref : TypeRef} {name : String}
    (hname : program.typeName ref = .ok name) : program.typeNames.find? name = some ref := by
  obtain ⟨entry, hentry, rfl⟩ := typeName_eq_ok.1 hname
  exact h.listed ref entry hentry

/-- A type that the table finds has the name that was asked for. -/
theorem typeName_of_find? {ref : TypeRef} {name : String}
    (hfind : program.typeNames.find? name = some ref) : program.typeName ref = .ok name :=
  typeName_eq_ok.2 (h.stored name ref hfind)

/-- Lists of types of the same names are one list. -/
theorem refs_unique {left right : List TypeRef} {trees : List TypeTree}
    (hleft : List.Forall₂ (fun ref tree => program.typeName ref = .ok tree.name) left trees)
    (hright : List.Forall₂ (fun ref tree => program.typeName ref = .ok tree.name) right trees) :
    left = right := by
  induction hleft generalizing right with
  | nil =>
    cases hright
    rfl
  | cons hname _ ih =>
    cases hright with
    | cons hname' hrest => rw [h.ref_unique hname hname', ih hrest]

/-- Shapes of one type are one shape. -/
theorem shape_unique {left right : TypeShape} {tree : TypeTree}
    (hleft : program.HasShape left tree) (hright : program.HasShape right tree) :
    left = right := by
  cases left <;> cases tree <;> simp only [HasShape] at hleft <;>
    cases right <;> simp only [HasShape] at hright
  all_goals try rfl
  · rw [h.ref_unique hleft.2 hright.2, hleft.1, hright.1]
  · obtain ⟨hvariadic, hresult, hparams⟩ := hleft
    obtain ⟨hvariadic', hresult', hparams'⟩ := hright
    rw [Signature.eq_of_parts (h.ref_unique hresult hresult') (h.refs_unique hparams hparams')
      (hvariadic.trans hvariadic'.symm)]

end Interned

/-- The empty program has no types. -/
theorem interned_empty : Interned {} where
  listed ref entry h := by simp [Arena.get?] at h
  stored name ref h := by simp at h
  rendered ref entry h := by simp [Arena.get?] at h

end Program

/-! ## Asking for a type -/

namespace Edit

/-- **Interning**: asking for a type by its canonical name yields a type of exactly the shape asked
for. -/
theorem intern_yields {program : Program} (h : program.Interned) {shape : TypeShape}
    {tree : TypeTree} (hshape : program.HasShape shape tree) :
    Step.Yields (intern tree.name shape) program fun ref after =>
      program.AddsTypes after ∧ after.Interned ∧
        after.types.get? ref = some ⟨tree.name, shape⟩ := by
  cases hfind : program.typeNames.find? tree.name with
  | some ref =>
    refine ⟨ref, program, by rw [intern, hfind], .refl program, h, ?_⟩
    -- the entry found renders some tree of this name, and names are injective
    obtain ⟨⟨name, found⟩, hentry, rfl⟩ := h.stored _ ref hfind
    obtain ⟨other, hname, hfound⟩ := h.rendered ref _ hentry
    rw [← TypeTree.name_injective hname] at hfound
    rw [hentry, ← h.shape_unique hfound hshape]
  | none =>
    have hrun : intern tree.name shape program =
        .ok (program.types.nextRef, { program with
          types := (program.types.alloc ⟨tree.name, shape⟩).2
          typeNames := program.typeNames.insert tree.name program.types.nextRef }) := by
      rw [intern, hfind]
      rfl
    have hadds : program.AddsTypes { program with
        types := (program.types.alloc ⟨tree.name, shape⟩).2
        typeNames := program.typeNames.insert tree.name program.types.nextRef } :=
      ⟨rfl, fun ref entry hentry => Arena.get?_alloc_of_some hentry _⟩
    refine ⟨_, _, hrun, hadds, ⟨fun ref entry hentry => ?_, fun name ref hname => ?_,
      fun ref entry hentry => ?_⟩, Arena.get?_alloc_nextRef _ _⟩
    · -- every entry is listed under its name
      rw [NameTable.find?_insert]
      rcases Arena.get?_alloc_eq_some hentry with ⟨rfl, rfl⟩ | hold
      · rw [if_pos rfl]
      · rw [if_neg, h.listed ref entry hold]
        intro equal
        rw [← equal, h.listed ref entry hold] at hfind
        exact nomatch hfind
    · -- every listed name is that of its entry
      rw [NameTable.find?_insert] at hname
      split at hname
      next equal =>
        obtain rfl := Option.some.inj hname
        exact ⟨_, Arena.get?_alloc_nextRef _ _, equal.symm⟩
      next =>
        obtain ⟨entry, hentry, rfl⟩ := h.stored name ref hname
        exact ⟨entry, hadds.types ref entry hentry, rfl⟩
    · -- every entry renders a tree
      rcases Arena.get?_alloc_eq_some hentry with ⟨rfl, rfl⟩ | hold
      · exact ⟨tree, rfl, hadds.hasShape hshape⟩
      · obtain ⟨other, hname, hother⟩ := h.rendered ref entry hold
        exact ⟨other, hname, hadds.hasShape hother⟩

end Edit

end ChainIR
