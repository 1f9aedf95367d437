import Mathlib
import ChainIR.Proofs.Types.Canonical
import ChainIR.Proofs.Types.Interning

/-! # Asking for types

Array and function types are interned under their canonical names, and a type name is resolved to
the type that it denotes. Whatever name is asked for, only types are added, and a type that comes
out has a name (`typeByName_yields`). A plain type, a primitive one or an array of plain types, is
found by its name in every program (`typeByName_plain`). -/

namespace ChainIR

namespace TypeTree

/-- Primitive types and arrays of plain types. -/
inductive IsPlain : TypeTree → Prop
  | void : IsPlain .void
  | num : IsPlain .num
  | chr : IsPlain .chr
  | str : IsPlain .str
  | array {element : TypeTree} (plain : IsPlain element) (size : UInt64) :
    IsPlain (.array element size)

end TypeTree

/-! ## Types by shape and by name -/

namespace Edit

variable {program : Program} (h : program.Interned)

include h

/-- An array type has exactly the element and the size that are asked for. -/
theorem arrayType_yields {element : TypeRef} {tree : TypeTree} (size : UInt64)
    (helement : program.typeName element = .ok tree.name) :
    Step.Yields (arrayType element size) program fun ref after =>
      program.AddsTypes after ∧ after.Interned ∧
        after.types.get? ref = some ⟨(tree.array size).name, .array element size⟩ := by
  have hname : TypeName.array tree.name size = (tree.array size).name := by rw [TypeTree.name]
  have hshape : program.HasShape (.array element size) (tree.array size) := ⟨rfl, helement⟩
  obtain ⟨ref, after, hrun, hpost⟩ := intern_yields h hshape
  exact ⟨ref, after, by rw [arrayType, Step.bind_of_ok (ask_of_ok helement), hname, hrun], hpost⟩

/-- A function type has exactly the signature that is asked for. -/
theorem functionType_yields {signature : Signature} {result : TypeTree} {params : List TypeTree}
    (hshape : program.HasShape (.function signature)
      (.function result params signature.variadic)) :
    Step.Yields (functionType signature) program fun ref after =>
      program.AddsTypes after ∧ after.Interned ∧
        after.types.get? ref =
          some ⟨(TypeTree.function result params signature.variadic).name,
            .function signature⟩ := by
  obtain ⟨ref, after, hrun, hpost⟩ := intern_yields h hshape
  obtain ⟨-, hresult, hparams⟩ := hshape
  have hnames : (signature.params.mapM fun param => ask (·.typeName param)) program =
      .ok (params.map TypeTree.name, program) :=
    mapM_ask_of_ok (by simpa [List.forall₂_map_right_iff] using hparams)
  refine ⟨ref, after, ?_, hpost⟩
  rw [functionType, Step.bind_of_ok (ask_of_ok hresult), Step.bind_of_ok hnames, ← hrun,
    TypeTree.name]

/-- A name without array suffix denotes an interned or a primitive type, or nothing. -/
theorem baseType?_yields (name : String) :
    Step.Yields (baseType? name) program fun result after =>
      program.AddsTypes after ∧ after.Interned ∧
        (∀ ref, result = some ref → after.typeName ref = .ok name) ∧
        (name ∈ ["void", "num", "chr", "str"] → ∃ ref, result = some ref) := by
  -- the four names in the list of the statement differ in their shape only
  have primitive : ∀ (shape : TypeShape) (tree : TypeTree), program.HasShape shape tree →
      Step.Yields (some <$> intern tree.name shape) program fun result after =>
        program.AddsTypes after ∧ after.Interned ∧
          (∀ ref, result = some ref → after.typeName ref = .ok tree.name) ∧
          (tree.name ∈ ["void", "num", "chr", "str"] → ∃ ref, result = some ref) := by
    intro shape tree hshape
    refine .map ((intern_yields h hshape).mono fun ref after hafter => ?_)
    obtain ⟨hadds, hinterned, hentry⟩ := hafter
    exact ⟨hadds, hinterned, fun _ hsome => Option.some.inj hsome ▸
      Program.typeName_eq_ok.2 ⟨_, hentry, rfl⟩, fun _ => ⟨ref, rfl⟩⟩
  unfold baseType?
  refine .get ?_
  cases hfind : program.typeNames.find? name with
  | some ref =>
    exact .pure ⟨.refl program, h,
      fun _ hsome => Option.some.inj hsome ▸ h.typeName_of_find? hfind, fun _ => ⟨ref, rfl⟩⟩
  | none =>
    dsimp only
    split
    · simpa only [TypeTree.name, voidType] using primitive .void .void trivial
    · simpa only [TypeTree.name, numType] using primitive .num .num trivial
    · simpa only [TypeTree.name, chrType] using primitive .chr .chr trivial
    · simpa only [TypeTree.name, strType] using primitive .str .str trivial
    next => exact .pure ⟨.refl program, h, by simp, by simp_all⟩

/-- Types that a name with array suffixes asks for are added on the way, and the type that comes
out is the one that the name denotes. -/
theorem typeOfPieces_yields {base : List Char} {suffixes : List (List Char)}
    (hpieces : ∀ piece ∈ base :: suffixes, '[' ∉ piece) :
    Step.Yields (typeOfPieces base suffixes) program fun result after =>
      program.AddsTypes after ∧ after.Interned ∧ ∀ ref, result = .ok (some ref) →
        after.typeName ref = .ok (TypeName.canonicalOf base suffixes) := by
  induction suffixes with
  | nil =>
    rw [typeOfPieces]
    refine .map ((baseType?_yields h (String.ofList base)).mono fun result after hafter => ?_)
    obtain ⟨hadds, hinterned, hname, -⟩ := hafter
    exact ⟨hadds, hinterned, fun ref href => hname ref (by simpa using href)⟩
  | cons suffix inner ih =>
    have hinner : ∀ piece ∈ base :: inner, '[' ∉ piece := by
      intro piece hmem
      rcases List.mem_cons.1 hmem with rfl | hmem
      · exact hpieces piece (.head _)
      · exact hpieces piece (.tail _ (.tail _ hmem))
    rw [typeOfPieces]
    refine .get ?_
    cases hfind : program.typeNames.find? (TypeName.joined base (suffix :: inner)) with
    | some ref =>
      refine .pure ⟨.refl program, h, fun ref' href => ?_⟩
      obtain rfl : ref = ref' := by simpa using href
      -- an interned name is canonical, so it denotes the type that is interned by it
      have hname := h.typeName_of_find? hfind
      obtain ⟨entry, hentry, hsame⟩ := Program.typeName_eq_ok.1 hname
      obtain ⟨tree, htree, -⟩ := h.rendered ref entry hentry
      rw [hname, ← hsame, htree, TypeTree.canonicalOf_name]
      rw [← htree, hsame, TypeName.joined, String.toList_ofList]
      refine List.splitOn_intercalate '[' (fun piece hmem => hpieces piece ?_) (by simp)
      simpa [or_comm, or_assoc] using hmem
    | none =>
      dsimp only
      cases hsize : TypeName.suffixSize (TypeName.joined base (suffix :: inner)) suffix with
      | error error => exact .pure ⟨.refl program, h, by simp⟩
      | ok size =>
        refine (ih hinner).bind fun result between hbetween => ?_
        obtain ⟨hadds, hinterned, hname⟩ := hbetween
        split
        · next element =>
          have hname := hname element rfl
          obtain ⟨entry, hentry, hsame⟩ := Program.typeName_eq_ok.1 hname
          obtain ⟨tree, htree, -⟩ := hinterned.rendered element entry hentry
          rw [TypeName.canonicalOf, hsize, ← hsame, htree]
          rw [← hsame, htree] at hname
          refine .map ((arrayType_yields hinterned size hname).mono fun ref after hafter => ?_)
          obtain ⟨hadds', hinterned', hentry'⟩ := hafter
          refine ⟨hadds.trans hadds', hinterned', fun ref' href => ?_⟩
          obtain rfl : ref = ref' := by simpa using href
          exact Program.typeName_eq_ok.2 ⟨_, hentry', by rw [TypeTree.name]⟩
        · next other hother =>
          exact .pure ⟨hadds, hinterned, fun ref href => absurd href (hother ref)⟩

/-- **Types by name**: whatever name is asked for, only types are added, and the type that comes out
is the one that the name denotes. -/
theorem typeByName_yields (name : String) :
    Step.Yields (typeByName name) program fun result after =>
      program.AddsTypes after ∧ after.Interned ∧ ∀ ref, result = .ok (some ref) →
        after.typeName ref = .ok (TypeName.canonical name) := by
  rw [typeByName, TypeName.canonical]
  cases hsplit : name.toList.splitOn '[' with
  | nil => exact .pure ⟨.refl program, h, by simp⟩
  | cons base suffixes =>
    refine typeOfPieces_yields h fun piece hmem => ?_
    have hpiece : piece ∈ name.toList.splitOn '[' := by
      rw [hsplit]
      simpa using hmem
    exact not_mem_of_mem_splitOn hpiece

/-! ## Plain types -/

/-- A primitive type is found by its name. -/
theorem typeOfPieces_primitive {tree : TypeTree}
    (primitive : tree.name ∈ ["void", "num", "chr", "str"]) {base : List Char}
    {suffixes : List (List Char)} (hsplit : tree.name.toList.splitOn '[' = base :: suffixes) :
    Step.Yields (typeOfPieces base suffixes.reverse) program fun result after =>
      program.AddsTypes after ∧ after.Interned ∧
        ∃ ref, result = .ok (some ref) ∧ after.typeName ref = .ok tree.name := by
  have hbracket : '[' ∉ tree.name.toList := by
    revert primitive
    generalize tree.name = name
    intro primitive
    fin_cases primitive <;> decide
  rw [List.splitOn_eq_singleton hbracket] at hsplit
  obtain ⟨rfl, rfl⟩ : tree.name.toList = base ∧ [] = suffixes := by simpa using hsplit
  rw [List.reverse_nil, typeOfPieces, String.ofList_toList]
  refine .map ((baseType?_yields h tree.name).mono fun result after hafter => ?_)
  obtain ⟨hadds, hinterned, htype, hsome⟩ := hafter
  obtain ⟨ref, rfl⟩ := hsome primitive
  exact ⟨hadds, hinterned, ref, rfl, htype ref rfl⟩

/-- The pieces of the name of a plain type lead to that type. -/
theorem typeOfPieces_plain {tree : TypeTree} (plain : tree.IsPlain) {base : List Char}
    {suffixes : List (List Char)} (hsplit : tree.name.toList.splitOn '[' = base :: suffixes) :
    Step.Yields (typeOfPieces base suffixes.reverse) program fun result after =>
      program.AddsTypes after ∧ after.Interned ∧
        ∃ ref, result = .ok (some ref) ∧ after.typeName ref = .ok tree.name := by
  induction plain generalizing suffixes with
  | @array element plain size ih =>
    have hjoined : ['['].intercalate ((element.array size).name.toList.splitOn '[') =
        (element.array size).name.toList := List.intercalate_splitOn '['
    rw [hsplit] at hjoined
    rw [TypeTree.splitOn_name_array] at hsplit
    -- only the last piece is that of the size; the others are the pieces of the element
    obtain ⟨inner, hinner, rfl⟩ : ∃ inner, element.name.toList.splitOn '[' = base :: inner ∧
        suffixes = inner ++ [Nat.toDigits 10 size.toNat ++ [']']] := by
      cases hpieces : element.name.toList.splitOn '[' with
      | nil => exact absurd hpieces (List.splitOn_ne_nil _ _)
      | cons first inner =>
        rw [hpieces] at hsplit
        obtain ⟨rfl, rfl⟩ := List.cons.inj hsplit
        exact ⟨inner, rfl, rfl⟩
    have hname : TypeName.joined base ((Nat.toDigits 10 size.toNat ++ [']']) :: inner.reverse) =
        (element.array size).name := by
      rw [TypeName.joined, List.reverse_cons, List.reverse_reverse, hjoined, String.ofList_toList]
    rw [List.reverse_append, List.reverse_singleton, List.singleton_append, typeOfPieces, hname,
      TypeName.suffixSize_toDigits]
    refine .get ?_
    cases hfind : program.typeNames.find? (element.array size).name with
    | some ref => exact .pure ⟨.refl program, h, ref, rfl, h.typeName_of_find? hfind⟩
    | none =>
      refine (ih hinner).bind fun result between hbetween => ?_
      obtain ⟨hadds, hinterned, ref, rfl, helement⟩ := hbetween
      refine .map ((arrayType_yields hinterned size helement).mono fun ref after hafter => ?_)
      obtain ⟨hadds', hinterned', hentry⟩ := hafter
      exact ⟨hadds.trans hadds', hinterned', ref, rfl,
        Program.typeName_eq_ok.2 ⟨_, hentry, rfl⟩⟩
  | _ => exact typeOfPieces_primitive h (by rw [TypeTree.name]; decide) hsplit

/-- A plain type is found by its name, whatever types there are. -/
theorem typeByName_plain {tree : TypeTree} (plain : tree.IsPlain) :
    Step.Yields (typeByName tree.name) program fun result after =>
      program.AddsTypes after ∧ after.Interned ∧
        ∃ ref, result = .ok (some ref) ∧ after.typeName ref = .ok tree.name := by
  rw [typeByName]
  cases hsplit : tree.name.toList.splitOn '[' with
  | nil => exact absurd hsplit (List.splitOn_ne_nil _ _)
  | cons base suffixes => exact typeOfPieces_plain h plain hsplit

end Edit

end ChainIR
