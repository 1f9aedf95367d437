import Mathlib
import ChainIR.Proofs.Outline.Builtin
import ChainIR.Proofs.Types.Resolution

/-! # The types that references denote

A reference to a type denotes the tree that its entry and the entries of its parts make up
(`Program.Denotes`). Types are interned by their names, but names tell trees apart, so in every
program that has been built by asking for types, two references are equal exactly if they denote
one tree, and asking for a shape gives a type of exactly that shape
(`TypeRequest.denotes_injective`). -/

namespace ChainIR

/-! ## Trees and references -/

/-- What holds of the primitive types and of a type whenever it holds of its parts holds of all
types. -/
@[elab_as_elim]
theorem TypeTree.induct {motive : TypeTree → Prop} (void : motive .void) (num : motive .num)
    (chr : motive .chr) (str : motive .str)
    (array : ∀ element size, motive element → motive (.array element size))
    (function : ∀ result params variadic, motive result → (∀ param ∈ params, motive param) →
      motive (.function result params variadic)) : ∀ tree, motive tree
  | .void => void
  | .num => num
  | .chr => chr
  | .str => str
  | .array element size => array element size (induct void num chr str array function element)
  | .function result params variadic =>
    function result params variadic (induct void num chr str array function result)
      fun param hparam =>
        have : sizeOf param < sizeOf params := List.sizeOf_lt_of_mem hparam
        induct void num chr str array function param
termination_by tree => sizeOf tree
decreasing_by
  all_goals simp_wf
  all_goals omega

namespace TypeShape

/-- The types that a shape is made of. -/
def parts : TypeShape → List TypeRef
  | .array element _ => [element]
  | .function signature => signature.result :: signature.params
  | _ => []

end TypeShape

namespace Program

/-- **Denotation of references**: a reference denotes a tree if its entry has the outermost
constructor, and the parts of the entry denote the parts of the tree. -/
inductive Denotes (program : Program) : TypeRef → TypeTree → Prop
  | void {ref : TypeRef} {name : String} (entry : program.types.get? ref = some ⟨name, .void⟩) :
    Denotes program ref .void
  | num {ref : TypeRef} {name : String} (entry : program.types.get? ref = some ⟨name, .num⟩) :
    Denotes program ref .num
  | chr {ref : TypeRef} {name : String} (entry : program.types.get? ref = some ⟨name, .chr⟩) :
    Denotes program ref .chr
  | str {ref : TypeRef} {name : String} (entry : program.types.get? ref = some ⟨name, .str⟩) :
    Denotes program ref .str
  | array {ref element : TypeRef} {name : String} {size : UInt64} {tree : TypeTree}
    (entry : program.types.get? ref = some ⟨name, .array element size⟩)
    (inner : Denotes program element tree) : Denotes program ref (.array tree size)
  | function {ref : TypeRef} {name : String} {signature : Signature} {result : TypeTree}
    {params : List TypeTree}
    (entry : program.types.get? ref = some ⟨name, .function signature⟩)
    (inner : Denotes program signature.result result)
    (inners : List.Forall₂ (Denotes program) signature.params params) :
    Denotes program ref (.function result params signature.variadic)

/-- The canonical name of a shape, made of the names of its parts. -/
def nameOfShape (program : Program) : TypeShape → Except Fault String
  | .void => .ok "void"
  | .num => .ok "num"
  | .chr => .ok "chr"
  | .str => .ok "str"
  | .array element size => return TypeName.array (← program.typeName element) size
  | .function signature => do
    let result ← program.typeName signature.result
    let params ← signature.params.mapM program.typeName
    return TypeName.function result params signature.variadic

/-- A reference is to a type of exactly the given shape. It was there before, and nothing has
changed, or there was none of that shape, and the types have got one new entry. -/
structure Provides (program : Program) (shape : TypeShape) (ref : TypeRef) (after : Program) :
    Prop where
  /-- The type has the shape. -/
  exact : ∃ name, after.types.get? ref = some ⟨name, shape⟩
  /-- It is an old type or a new one. -/
  only : (after = program ∨
    (∀ other name, program.types.get? other ≠ some ⟨name, shape⟩) ∧
      ref = program.types.nextRef ∧ ∃ name,
        after = { program with
          types := (program.types.alloc ⟨name, shape⟩).2
          typeNames := program.typeNames.insert name ref })

/-- Elements that have something each have a list of them. -/
theorem exists_forall₂ {α β : Type} {related : α → β → Prop} {items : List α}
    (h : ∀ item ∈ items, ∃ other, related item other) :
    ∃ others, List.Forall₂ related items others := by
  induction items with
  | nil => exact ⟨[], .nil⟩
  | cons item items ih =>
    obtain ⟨hitem, hitems⟩ := List.forall_mem_cons.1 h
    obtain ⟨other, hother⟩ := hitem
    obtain ⟨others, hothers⟩ := ih hitems
    exact ⟨other :: others, .cons hother hothers⟩

/-- Lists whose elements are related stay so under a relation that holds of each element on the
right whenever the old one does. -/
theorem forall₂_of_mem_right {α β : Type} {before after : α → β → Prop} {items : List α}
    {others : List β} (h : List.Forall₂ before items others)
    (hother : ∀ other ∈ others, ∀ item, before item other → after item other) :
    List.Forall₂ after items others := by
  induction h with
  | nil => exact .nil
  | cons hfirst _ ih =>
    obtain ⟨hfirst', hrest⟩ := List.forall_mem_cons.1 hother
    exact .cons (hfirst' _ hfirst) (ih hrest)

/-- Trees of one shape are one tree. -/
theorem tree_unique {program : Program} {shape : TypeShape} {left right : TypeTree}
    (hleft : program.HasShape shape left) (hright : program.HasShape shape right) :
    left = right := by
  have hnamed : Relator.RightUnique fun (ref : TypeRef) (tree : TypeTree) =>
      program.typeName ref = .ok tree.name := by
    intro ref left right hleft hright
    exact TypeTree.name_injective (Except.ok.inj (hleft.symm.trans hright))
  cases shape <;> cases left <;> simp only [HasShape] at hleft <;>
    cases right <;> simp only [HasShape] at hright
  all_goals try rfl
  · rw [← hleft.1, ← hright.1, hnamed hleft.2 hright.2]
  · obtain ⟨hvariadic, hresult, hparams⟩ := hleft
    obtain ⟨hvariadic', hresult', hparams'⟩ := hright
    rw [← hvariadic, ← hvariadic', hnamed hresult hresult',
      List.right_unique_forall₂' hnamed hparams hparams']

/-! ## One reference for each tree -/

namespace Interned

variable {program : Program} (h : program.Interned)
include h

/-- A type with the name of a tree has a shape of the outermost constructor of the tree. -/
theorem hasShape_of_typeName {ref : TypeRef} {tree : TypeTree}
    (hname : program.typeName ref = .ok tree.name) :
    ∃ shape, program.types.get? ref = some ⟨tree.name, shape⟩ ∧ program.HasShape shape tree := by
  obtain ⟨⟨name, shape⟩, hentry, hequal⟩ := typeName_eq_ok.1 hname
  obtain ⟨other, hother, hshape⟩ := h.rendered ref _ hentry
  obtain rfl : other = tree := TypeTree.name_injective (hother.symm.trans hequal)
  exact ⟨shape, hequal ▸ hentry, hshape⟩

/-- A type with the name of a tree denotes the tree. -/
theorem denotes_of_typeName {tree : TypeTree} {ref : TypeRef}
    (hname : program.typeName ref = .ok tree.name) : program.Denotes ref tree := by
  induction tree using TypeTree.induct generalizing ref with
  | void | num | chr | str =>
    obtain ⟨shape, hentry, hshape⟩ := h.hasShape_of_typeName hname
    cases shape <;> simp only [HasShape] at hshape
    constructor
    exact hentry
  | array element size ih =>
    obtain ⟨shape, hentry, hshape⟩ := h.hasShape_of_typeName hname
    cases shape <;> simp only [HasShape] at hshape
    obtain ⟨rfl, helement⟩ := hshape
    exact .array hentry (ih helement)
  | function result params variadic ihResult ihParams =>
    obtain ⟨shape, hentry, hshape⟩ := h.hasShape_of_typeName hname
    cases shape <;> simp only [HasShape] at hshape
    obtain ⟨rfl, hresult, hparams⟩ := hshape
    refine .function hentry (ihResult hresult) (forall₂_of_mem_right hparams ?_)
    exact fun param hmem other hother => ihParams param hmem hother

/-- A type that denotes a tree has the name of the tree. -/
theorem typeName_of_denotes {tree : TypeTree} {ref : TypeRef} (hdenotes : program.Denotes ref tree) :
    program.typeName ref = .ok tree.name := by
  -- an entry of this shape renders some tree, and a shape has only one
  have hrendered : ∀ {ref : TypeRef} {name : String} {shape : TypeShape} {tree : TypeTree},
      program.types.get? ref = some ⟨name, shape⟩ → program.HasShape shape tree →
      program.typeName ref = .ok tree.name := by
    intro ref name shape tree hentry hshape
    obtain ⟨other, hname, hother⟩ := h.rendered ref _ hentry
    obtain rfl := tree_unique hother hshape
    exact typeName_eq_ok.2 ⟨_, hentry, hname⟩
  induction tree using TypeTree.induct generalizing ref with
  | void | num | chr | str =>
    cases hdenotes with
    | _ hentry => exact hrendered hentry trivial
  | array element size ih =>
    cases hdenotes with
    | array hentry inner => exact hrendered hentry ⟨rfl, ih inner⟩
  | function result params variadic ihResult ihParams =>
    cases hdenotes with
    | function hentry inner inners =>
      refine hrendered hentry ⟨rfl, ihResult inner, forall₂_of_mem_right inners ?_⟩
      exact fun param hmem other hother => ihParams param hmem hother

/-- A type denotes exactly the tree that it is named for. -/
theorem denotes_iff {ref : TypeRef} {tree : TypeTree} :
    program.Denotes ref tree ↔ program.typeName ref = .ok tree.name :=
  ⟨h.typeName_of_denotes, h.denotes_of_typeName⟩

/-- Every type denotes one tree. -/
theorem exists_denotes {ref : TypeRef} {entry : TypeEntry}
    (hentry : program.types.get? ref = some entry) :
    ∃ tree : TypeTree, tree.name = entry.name ∧ ∀ other, program.Denotes ref other ↔ other = tree := by
  obtain ⟨tree, hname, -⟩ := h.rendered ref entry hentry
  have htree : program.typeName ref = .ok tree.name := typeName_eq_ok.2 ⟨entry, hentry, hname⟩
  refine ⟨tree, hname.symm, fun other => ?_⟩
  rw [h.denotes_iff, htree, Except.ok.injEq]
  exact ⟨fun hsame => TypeTree.name_injective hsame.symm, fun hsame => by rw [hsame]⟩

/-- The name of a type is made of the names of its parts. -/
theorem nameOfShape_eq {ref : TypeRef} {entry : TypeEntry}
    (hentry : program.types.get? ref = some entry) :
    program.nameOfShape entry.shape = .ok entry.name := by
  obtain ⟨tree, hname, hshape⟩ := h.rendered ref entry hentry
  rw [hname]
  cases hshape' : entry.shape <;> rw [hshape'] at hshape <;> cases tree <;>
    simp only [HasShape] at hshape
  · rw [TypeTree.name]
    rfl
  · rw [TypeTree.name]
    rfl
  · rw [TypeTree.name]
    rfl
  · rw [TypeTree.name]
    rfl
  · obtain ⟨rfl, helement⟩ := hshape
    rw [TypeTree.name, nameOfShape, helement]
    rfl
  · obtain ⟨rfl, hresult, hparams⟩ := hshape
    have hnames := mapM_of_forall₂ (List.forall₂_map_right_iff.2 hparams)
    simp only [nameOfShape, hresult, hnames, bind, Except.bind, pure, Except.pure, TypeTree.name]

/-- References to types are equal exactly if they denote one tree. -/
theorem eq_iff_denotes {left right : TypeRef} (hleft : left.index < program.types.size) :
    left = right ↔ ∃ tree, program.Denotes left tree ∧ program.Denotes right tree := by
  constructor
  · rintro rfl
    obtain ⟨entry, hentry⟩ := Option.isSome_iff_exists.1 ((Arena.get?_isSome_iff _ left).2 hleft)
    obtain ⟨tree, -, hdenotes⟩ := h.exists_denotes hentry
    exact ⟨tree, (hdenotes tree).2 rfl, (hdenotes tree).2 rfl⟩
  · rintro ⟨tree, hleft, hright⟩
    exact h.ref_unique (h.typeName_of_denotes hleft) (h.typeName_of_denotes hright)

/-- References to types are equal exactly if their names are. -/
theorem eq_iff_typeName {left right : TypeRef} (hleft : left.index < program.types.size) :
    left = right ↔ program.typeName left = program.typeName right := by
  constructor
  · rintro rfl
    rfl
  · intro hnames
    obtain ⟨entry, hentry⟩ := Option.isSome_iff_exists.1 ((Arena.get?_isSome_iff _ left).2 hleft)
    have hname : program.typeName left = .ok entry.name := typeName_eq_ok.2 ⟨entry, hentry, rfl⟩
    exact h.ref_unique hname (hnames ▸ hname)

/-- A shape whose parts are types has the shape of a tree. -/
theorem exists_hasShape {shape : TypeShape}
    (hparts : ∀ part ∈ shape.parts, part.index < program.types.size) :
    ∃ tree, program.HasShape shape tree := by
  have hnamed : ∀ part ∈ shape.parts, ∃ tree : TypeTree, program.typeName part = .ok tree.name := by
    intro part hpart
    obtain ⟨entry, hentry⟩ :=
      Option.isSome_iff_exists.1 ((Arena.get?_isSome_iff _ part).2 (hparts part hpart))
    obtain ⟨tree, hname, -⟩ := h.rendered part entry hentry
    exact ⟨tree, typeName_eq_ok.2 ⟨entry, hentry, hname⟩⟩
  cases shape with
  | void => exact ⟨.void, trivial⟩
  | num => exact ⟨.num, trivial⟩
  | chr => exact ⟨.chr, trivial⟩
  | str => exact ⟨.str, trivial⟩
  | array element size =>
    obtain ⟨tree, htree⟩ := hnamed element (.head _)
    exact ⟨.array tree size, rfl, htree⟩
  | function signature =>
    obtain ⟨hresult, hparams⟩ := List.forall_mem_cons.1 hnamed
    obtain ⟨result, hresult⟩ := hresult
    obtain ⟨params, hparams⟩ := exists_forall₂ hparams
    exact ⟨.function result params signature.variadic, rfl, hresult, hparams⟩

end Interned

end Program

/-! ## Asking for a shape -/

namespace Edit

open Program

variable {program : Program} (h : program.Interned)
include h

/-- Asking for a shape by the name of its tree gives a type of exactly that shape. -/
theorem intern_provides {shape : TypeShape} {tree : TypeTree}
    (hshape : program.HasShape shape tree) :
    Step.Yields (intern tree.name shape) program fun ref after =>
      program.Provides shape ref after ∧ program.AddsTypes after ∧ after.Interned := by
  obtain ⟨ref, after, hrun, hadds, hinterned, hentry⟩ := intern_yields h hshape
  refine ⟨ref, after, hrun, ⟨⟨_, hentry⟩, ?_⟩, hadds, hinterned⟩
  rw [intern] at hrun
  cases hfind : program.typeNames.find? tree.name with
  | some found =>
    rw [hfind] at hrun
    exact .inl (Prod.mk.inj (Except.ok.inj hrun)).2.symm
  | none =>
    rw [hfind] at hrun
    obtain ⟨rfl, rfl⟩ := Prod.mk.inj (Except.ok.inj hrun)
    refine .inr ⟨fun other name hother => ?_, rfl, tree.name, rfl⟩
    -- a type of the shape would have the name, and the table would have found it
    obtain ⟨tree', hname, hshape'⟩ := h.rendered other _ hother
    obtain rfl := tree_unique hshape' hshape
    have hlisted := h.listed other _ hother
    rw [show name = tree'.name from hname, hfind] at hlisted
    exact Option.some_ne_none other hlisted.symm

/-- The type of a shape. -/
def typeOfShape : TypeShape → Edit TypeRef
  | .void => voidType
  | .num => numType
  | .chr => chrType
  | .str => strType
  | .array element size => arrayType element size
  | .function signature => functionType signature

/-- Asking for a shape gives a type of exactly that shape. -/
theorem typeOfShape_provides {shape : TypeShape}
    (hparts : ∀ part ∈ shape.parts, part.index < program.types.size) :
    Step.Yields (typeOfShape shape) program fun ref after =>
      program.Provides shape ref after ∧ program.AddsTypes after ∧ after.Interned := by
  obtain ⟨tree, hshape⟩ := h.exists_hasShape hparts
  have hprovides := intern_provides h hshape
  cases shape with
  | array element size =>
    cases tree <;> simp only [HasShape] at hshape
    obtain ⟨rfl, helement⟩ := hshape
    rw [TypeTree.name] at hprovides
    exact .bind_of_ok (ask_of_ok helement) hprovides
  | function signature =>
    cases tree <;> simp only [HasShape] at hshape
    obtain ⟨rfl, hresult, hparams⟩ := hshape
    rw [TypeTree.name] at hprovides
    have hnames : (signature.params.mapM fun param => ask (·.typeName param)) program = _ :=
      mapM_ask_of_ok (List.forall₂_map_right_iff.2 hparams)
    exact .bind_of_ok (ask_of_ok hresult) (.bind_of_ok hnames hprovides)
  | void | num | chr | str =>
    cases tree <;> simp only [HasShape] at hshape
    rw [TypeTree.name] at hprovides
    exact hprovides

end Edit

/-! ## Runs of requests -/

/-- A request for a type: by its shape, or by a name. -/
inductive TypeRequest
  | ofShape (shape : TypeShape)
  | ofName (name : String)

namespace TypeRequest

/-- Ask for a type, whatever comes of it. -/
def run : TypeRequest → Edit Unit
  | ofShape shape => do let _ ← Edit.typeOfShape shape
  | ofName name => do let _ ← Edit.typeByName name

/-- Ask for types one after the other. -/
def runAll (requests : List TypeRequest) : Edit Unit := forM requests run

/-- The parts of a shape that is given are types. -/
theorem parts_of_typeOfShape {shape : TypeShape} {program after : Program} {ref : TypeRef}
    (hrun : Edit.typeOfShape shape program = .ok (ref, after)) :
    ∀ part ∈ shape.parts, part.index < program.types.size := by
  have hlt : ∀ {part : TypeRef} {name : String}, program.typeName part = .ok name →
      part.index < program.types.size := by
    intro part name hname
    obtain ⟨entry, hentry, -⟩ := Program.typeName_eq_ok.1 hname
    exact Arena.lt_size_of_get? hentry
  cases shape with
  | array element size =>
    obtain ⟨name, middle, hask, -⟩ := Step.bind_eq_ok.1 hrun
    intro part hpart
    obtain rfl := List.mem_singleton.1 hpart
    exact hlt (Edit.ask_eq_ok.1 hask).1
  | function signature =>
    obtain ⟨name, middle, hask, hrest⟩ := Step.bind_eq_ok.1 hrun
    obtain ⟨hresult, rfl⟩ := Edit.ask_eq_ok.1 hask
    obtain ⟨names, middle, hasks, -⟩ := Step.bind_eq_ok.1 hrest
    obtain ⟨hparams, rfl⟩ := Edit.forall₂_of_mapM_ask hasks
    refine List.forall_mem_cons.2 ⟨hlt hresult, fun part hpart => ?_⟩
    obtain ⟨name, -, hname⟩ := exists_of_forall₂ hparams.flip hpart
    exact hlt hname
  | void | num | chr | str => exact fun _ hpart => absurd hpart List.not_mem_nil

/-- A request that succeeds adds types and keeps them in order. -/
theorem addsTypes_of_run {request : TypeRequest} {program after : Program} (h : program.Interned)
    (hrun : request.run program = .ok ((), after)) :
    program.AddsTypes after ∧ after.Interned := by
  cases request with
  | ofShape shape =>
    obtain ⟨ref, hshape⟩ := (Step.drop_eq_ok fun _ => rfl).1 hrun
    exact ((Edit.typeOfShape_provides h (parts_of_typeOfShape hshape)).of_eq_ok hshape).2
  | ofName name =>
    obtain ⟨answer, hname⟩ := (Step.drop_eq_ok fun _ => rfl).1 hrun
    obtain ⟨hadds, hinterned, -⟩ := (Edit.typeByName_yields h name).of_eq_ok hname
    exact ⟨hadds, hinterned⟩

/-- Requests one after the other keep the types in order. -/
theorem interned_of_runAll {requests : List TypeRequest} {program after : Program}
    (h : program.Interned) (hrun : runAll requests program = .ok ((), after)) : after.Interned := by
  induction requests generalizing program with
  | nil =>
    obtain ⟨-, rfl⟩ : () = () ∧ program = after := by simpa [runAll] using hrun
    exact h
  | cons request requests ih =>
    rw [runAll, List.forM_cons] at hrun
    obtain ⟨⟨⟩, middle, hfirst, hrest⟩ := Step.bind_eq_ok.1 hrun
    exact ih (addsTypes_of_run h hfirst).2 hrest

/-- **A type has one reference, one tree and one name.** In every program that has been built by
asking for types, a type denotes one tree and is named for it; two references are equal exactly if
they denote one tree, and exactly if they have one name; and asking for a shape gives a type of
exactly that shape. -/
theorem denotes_injective {requests : List TypeRequest} {program : Program}
    (hrun : runAll requests Program.initial = .ok ((), program)) :
    (∀ ref entry, program.types.get? ref = some entry →
      program.nameOfShape entry.shape = .ok entry.name ∧
        ∃ tree : TypeTree, tree.name = entry.name ∧
          ∀ other, program.Denotes ref other ↔ other = tree) ∧
    (∀ left right : TypeRef, left.index < program.types.size → right.index < program.types.size →
      (left = right ↔ ∃ tree, program.Denotes left tree ∧ program.Denotes right tree) ∧
      (left = right ↔ program.typeName left = program.typeName right)) ∧
    ∀ shape : TypeShape, (∀ part ∈ shape.parts, part.index < program.types.size) →
      Step.Yields (Edit.typeOfShape shape) program (program.Provides shape) := by
  have hinterned := interned_of_runAll Program.shownBy_initial.interned hrun
  refine ⟨fun ref entry hentry => ?_, fun left right hleft _ => ?_, fun shape hparts => ?_⟩
  · exact ⟨hinterned.nameOfShape_eq hentry, hinterned.exists_denotes hentry⟩
  · exact ⟨hinterned.eq_iff_denotes hleft, hinterned.eq_iff_typeName hleft⟩
  · exact (Edit.typeOfShape_provides hinterned hparts).mono fun _ _ hafter => hafter.1

/-- Arrays of arrays, asked for by name, are not the arrays in them, and asking for them by their
shape gives them again. -/
theorem denotes_nested_arrays : ∃ program,
    runAll [.ofShape (.array ⟨1⟩ 3), .ofName "num[3][2]", .ofShape (.function ⟨⟨0⟩, [⟨11⟩], true⟩)]
      Program.initial = .ok ((), program) ∧ program.types.size = 14 ∧
      (¬ ∃ tree, program.Denotes ⟨11⟩ tree ∧ program.Denotes ⟨12⟩ tree) ∧
      Step.Yields (Edit.typeOfShape (.array ⟨11⟩ 2)) program (program.Provides (.array ⟨11⟩ 2)) := by
  have hbuilt : Step.leadsTo (runAll [.ofShape (.array ⟨1⟩ 3), .ofName "num[3][2]",
      .ofShape (.function ⟨⟨0⟩, [⟨11⟩], true⟩)]) Program.initial
      (fun program => program.types.size == 14) = true := by decide +kernel
  obtain ⟨⟨⟩, program, hrun, hcount⟩ := Step.exists_of_leadsTo hbuilt
  have hsize : program.types.size = 14 := eq_of_beq hcount
  obtain ⟨-, hequal, hshape⟩ := denotes_injective hrun
  refine ⟨program, hrun, hsize, fun hsame => ?_, hshape _ fun part hpart => ?_⟩
  · have hrefs := (hequal ⟨11⟩ ⟨12⟩ (by simp [hsize]) (by simp [hsize])).1.2 hsame
    exact absurd hrefs (by decide)
  · obtain rfl := List.mem_singleton.1 hpart
    simp [hsize]

end TypeRequest

end ChainIR
