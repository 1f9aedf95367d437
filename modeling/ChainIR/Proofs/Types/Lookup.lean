import Mathlib
import ChainIR.Proofs.Types.Suffixes

/-! # What the look-up of a name leaves behind

A name is looked up from its end: whatever is interned is found, a suffix that is no size in
brackets is a flaw, and otherwise the name in front of the suffix is looked up and an array is put
around what it denotes. Only a look-up that finds a type creates any
(`Program.Reachable.typeByName_traceless`): the primitive type at the base and the arrays around
it, as far as they are missing, from the inside out. What goes wrong with any other name is the
flaw of the longest name that is left when suffixes are cut off.

An array is told by its brackets, wherever they stand. So the name of a function type that takes
or returns an array, or a function type of such a kind, is no unknown name but a flawed one
(`Program.Reachable.typeByName_function`).

* `TypeName.Cut`: what is left of a name when suffixes are cut off.
* `TypeName.Malformed`: what may be wrong with the last suffix of a name.
* `Edit.Resolves`: the course of a look-up. -/

namespace ChainIR

namespace TypeName

/-! ## Cutting suffixes off -/

/-- A name is left when another one is cut at its last bracket, again and again. -/
inductive Cut (name : String) : String → Prop
  /-- Nothing is cut off. -/
  | whole : Cut name name
  /-- One more suffix is cut off. -/
  | shorter {front : String} {suffix : List Char}
    (cut : Cut name (front ++ "[" ++ String.ofList suffix)) (last : '[' ∉ suffix) : Cut name front

/-- What is wrong with the last suffix of a name. -/
inductive Malformed (name : String) : TypeError → Prop
  /-- The bracket is not closed at the end. -/
  | unclosed {front : String} {suffix : List Char}
    (made : name = front ++ "[" ++ String.ofList suffix) (last : '[' ∉ suffix)
    (isOpen : suffix.getLast? ≠ some ']') : Malformed name (.malformedTypeName name)
  /-- There is no size between the brackets. -/
  | noSize {front : String} {text : List Char}
    (made : name = front ++ "[" ++ String.ofList text ++ "]") (last : '[' ∉ text)
    (noSize : ∀ size, ¬ IsSize text size) : Malformed name (.malformedArraySize name)

/-- The last suffix of a name is a size in brackets. -/
def EndsInSize (name : String) : Prop :=
  ∃ front text size, name = front ++ "[" ++ String.ofList text ++ "]" ∧ IsSize text size

/-- The last bracket of a name tells its last suffix. -/
theorem suffix_unique {front front' : String} {suffix suffix' : List Char} (h : '[' ∉ suffix)
    (h' : '[' ∉ suffix')
    (same : front ++ "[" ++ String.ofList suffix = front' ++ "[" ++ String.ofList suffix') :
    front = front' ∧ suffix = suffix' := by
  have htext : front.toList ++ '[' :: suffix = front'.toList ++ '[' :: suffix' := by
    simpa using congrArg String.toList same
  obtain ⟨hfront, hsuffix⟩ := TypeTree.cut_at_last h h' htext
  exact ⟨String.toList_injective hfront, hsuffix⟩

/-- A closed suffix is a text and the bracket behind it. -/
theorem closed_suffix (front : String) (text : List Char) :
    front ++ "[" ++ String.ofList text ++ "]" =
      front ++ "[" ++ String.ofList (text ++ [']']) := by
  refine String.toList_injective ?_
  simp

/-- A suffix is malformed exactly if no size can be read from it. -/
theorem malformed_iff {front : String} {suffix : List Char} (h : '[' ∉ suffix)
    {error : TypeError} :
    Malformed (front ++ "[" ++ String.ofList suffix) error ↔
      suffixSize (front ++ "[" ++ String.ofList suffix) suffix = .error error := by
  generalize hname : front ++ "[" ++ String.ofList suffix = name
  constructor
  · intro hmalformed
    cases hmalformed with
    | unclosed made last isOpen =>
      -- a name has one last bracket, so the two ways to cut it agree
      obtain ⟨-, rfl⟩ := suffix_unique h last (hname.trans made)
      rw [suffixSize, if_neg isOpen]
    | @noSize _ text made last noSize =>
      have hclosed : '[' ∉ text ++ [']'] := by simpa using last
      obtain ⟨-, rfl⟩ := suffix_unique h hclosed (hname.trans (made.trans (closed_suffix _ _)))
      have hsize : size? text = none :=
        Option.eq_none_iff_forall_not_mem.2 fun size hsome => noSize size (size?_eq_some.1 hsome)
      rw [suffixSize, if_pos List.getLast?_concat, List.dropLast_concat, hsize]
  · intro herror
    rw [suffixSize] at herror
    split at herror
    · next hlast =>
      split at herror
      · exact absurd herror (by simp)
      · next hsize =>
        obtain rfl := Except.error.inj herror
        have hsuffix : suffix.dropLast ++ [']'] = suffix := List.dropLast_append_getLast? _ hlast
        refine @Malformed.noSize name front suffix.dropLast ?_ ?_ fun size hsome => ?_
        · rw [closed_suffix, hsuffix, hname]
        · exact fun hmem => h (List.mem_of_mem_dropLast hmem)
        · exact absurd (hsize.symm.trans (size?_eq_some.2 hsome)) (by simp)
    · next hopen =>
      obtain rfl := Except.error.inj herror
      exact .unclosed hname.symm h hopen

/-- A name ends in a size exactly if one can be read from its last suffix. -/
theorem endsInSize_iff {front : String} {suffix : List Char} (h : '[' ∉ suffix) :
    EndsInSize (front ++ "[" ++ String.ofList suffix) ↔
      ∃ size, suffixSize (front ++ "[" ++ String.ofList suffix) suffix = .ok size := by
  constructor
  · rintro ⟨other, text, size, hname, hsize⟩
    have hclosed : '[' ∉ text ++ [']'] := by simpa using hsize.not_mem
    obtain ⟨-, rfl⟩ := suffix_unique h hclosed (hname.trans (closed_suffix _ _))
    exact ⟨size, suffixSize_eq_ok.2 ⟨text, rfl, hsize⟩⟩
  · rintro ⟨size, hsize⟩
    obtain ⟨text, rfl, htext⟩ := suffixSize_eq_ok.1 hsize
    exact ⟨front, text, size, (closed_suffix _ _).symm, htext⟩

/-- A name is left of another one if it is the whole or is left of what stands in front of the last
suffix. -/
theorem cut_iff {front : String} {suffix : List Char} (h : '[' ∉ suffix) {cut : String} :
    Cut (front ++ "[" ++ String.ofList suffix) cut ↔
      cut = front ++ "[" ++ String.ofList suffix ∨ Cut front cut := by
  constructor
  · intro hcut
    induction hcut with
    | whole => exact .inl rfl
    | shorter _ last ih =>
      rcases ih with hwhole | hinner
      · obtain ⟨rfl, -⟩ := suffix_unique last h hwhole
        exact .inr .whole
      · exact .inr (.shorter hinner last)
  · rintro (rfl | hcut)
    · exact .whole
    · induction hcut with
      | whole => exact .shorter .whole h
      | shorter _ last ih => exact .shorter ih last

/-- Nothing is cut off a name without bracket. -/
theorem Cut.eq_of_not_mem {name cut : String} (h : Cut name cut) (hname : '[' ∉ name.toList) :
    cut = name := by
  induction h with
  | whole => rfl
  | shorter _ _ ih =>
    rw [← ih] at hname
    exact absurd (by simp) hname

/-- A name is longer than what stands in front of its last suffix. -/
theorem length_lt_of_suffix (front : String) (suffix : List Char) :
    front.length < (front ++ "[" ++ String.ofList suffix).length := by
  have hbracket : "[".length = 1 := rfl
  rw [String.length_append, String.length_append]
  omega

/-- What is left of a name is the name or is shorter. -/
theorem Cut.eq_or_length_lt {name cut : String} (h : Cut name cut) :
    cut = name ∨ cut.length < name.length := by
  induction h with
  | whole => exact .inl rfl
  | @shorter front suffix _ _ ih =>
    have hlt := length_lt_of_suffix front suffix
    rcases ih with hwhole | hshorter
    · exact .inr (hwhole ▸ hlt)
    · exact .inr (hlt.trans hshorter)

/-- What is left of a name is no longer than the name. -/
theorem Cut.length_le {name cut : String} (h : Cut name cut) : cut.length ≤ name.length := by
  rcases h.eq_or_length_lt with rfl | hlt
  · exact le_rfl
  · exact hlt.le

/-- The name that pieces make up, with its last suffix. -/
theorem joined_cons (base suffix : List Char) (inner : List (List Char)) :
    joined base (suffix :: inner) = joined base inner ++ "[" ++ String.ofList suffix := by
  refine String.toList_injective ?_
  rw [toList_joined_cons]
  simp

/-! ## Arrays around a type -/

/-- The name of an array is longer than that of its elements. -/
theorem length_lt_array (element : String) (size : UInt64) :
    element.length < (array element size).length := by
  have hbracket : "[".length = 1 := rfl
  rw [array, String.length_append, String.length_append, String.length_append]
  omega

/-- The names of a type and of the arrays around it, from the inside out. -/
def wrappings (base : String) (sizes : List UInt64) : List String := sizes.scanl array base

/-- One more array around a type. -/
theorem wrappings_concat (base : String) (sizes : List UInt64) (size : UInt64) :
    wrappings base (sizes ++ [size]) =
      wrappings base sizes ++ [array (sizes.foldl array base) size] := by
  simp [wrappings, List.scanl_append]

/-- The outermost array has the longest name. -/
theorem length_le_of_mem_wrappings {base name : String} {sizes : List UInt64}
    (h : name ∈ wrappings base sizes) : name.length ≤ (sizes.foldl array base).length := by
  induction sizes using List.reverseRecOn with
  | nil =>
    obtain rfl : name = base := by simpa [wrappings] using h
    exact le_rfl
  | append_singleton sizes size ih =>
    rw [List.foldl_append, List.foldl_cons, List.foldl_nil]
    rw [wrappings_concat, List.mem_append, List.mem_singleton] at h
    rcases h with hinner | rfl
    · exact (ih hinner).trans (length_lt_array _ _).le
    · exact le_rfl

end TypeName

namespace Program

open ChainIR.TypeName

/-! ## Missing types -/

/-- No type of a name has been interned. -/
def lacks (program : Program) (name : String) : Bool := (program.typeNames.find? name).isNone

/-- A name is missing exactly if there is no type of it. -/
theorem Interned.lacks_iff {program : Program} (h : program.Interned) {name : String} :
    program.lacks name = true ↔ ∀ ref, program.typeName ref ≠ .ok name := by
  rw [lacks, Option.isNone_iff_eq_none]
  constructor
  · intro hnone ref hname
    exact absurd (hnone.symm.trans (h.find?_of_typeName hname)) (by simp)
  · intro hnames
    exact Option.eq_none_iff_forall_not_mem.2 fun ref hsome =>
      hnames ref (h.typeName_of_find? hsome)

/-- Inside of an array that has been interned no type is missing. -/
theorem Interned.wrappings_of_typeName {program : Program} (h : program.Interned)
    {tree : TypeTree} {sizes : List UInt64} {ref : TypeRef}
    (hname : program.typeName ref = .ok (sizes.foldl TypeName.array tree.name)) :
    ∀ name ∈ wrappings tree.name sizes, ¬ program.lacks name := by
  -- the outermost array stands at the end of the sizes, and its shape leads to its elements
  induction sizes using List.reverseRecOn generalizing ref with
  | nil =>
    intro name hmem
    obtain rfl : name = tree.name := by simpa [wrappings] using hmem
    exact fun hlacks => h.lacks_iff.1 hlacks ref hname
  | append_singleton sizes size ih =>
    intro name hmem
    rw [List.foldl_append, List.foldl_cons, List.foldl_nil] at hname
    rw [wrappings_concat, List.mem_append, List.mem_singleton] at hmem
    rcases hmem with hinner | rfl
    · have hwhole : program.typeName ref = .ok ((sizes.foldl TypeTree.array tree).array size).name := by
        rw [TypeTree.name, TypeTree.name_foldl_array, hname]
      obtain ⟨shape, -, hshape⟩ := h.hasShape_of_typeName hwhole
      cases shape <;> simp only [HasShape] at hshape
      rw [TypeTree.name_foldl_array] at hshape
      exact ih hshape.2 name hinner
    · exact fun hlacks => h.lacks_iff.1 hlacks ref hname

/-- The flaw of a name: it is the longest name left of it that has a malformed suffix, and all
names that are longer end in sizes and have not been interned. -/
def FirstFlaw (program : Program) (name : String) (error : TypeError) : Prop :=
  ∃ cut, Cut name cut ∧ Malformed cut error ∧ program.lacks cut ∧
    ∀ longer, Cut name longer → cut.length < longer.length →
      EndsInSize longer ∧ program.lacks longer

/-- A flaw is in the last suffix, or else in front of it. -/
theorem firstFlaw_iff {program : Program} {front : String} {suffix : List Char}
    (h : '[' ∉ suffix) {error : TypeError} :
    program.FirstFlaw (front ++ "[" ++ String.ofList suffix) error ↔
      program.lacks (front ++ "[" ++ String.ofList suffix) ∧
        (Malformed (front ++ "[" ++ String.ofList suffix) error ∨
          EndsInSize (front ++ "[" ++ String.ofList suffix) ∧ program.FirstFlaw front error) := by
  constructor
  · rintro ⟨cut, hcut, hmalformed, hlacks, hlonger⟩
    -- either the whole name has the flaw, or it is one of the longer names, which end well
    rcases (cut_iff h).1 hcut with rfl | hinner
    · exact ⟨hlacks, .inl hmalformed⟩
    · have hlt := hinner.length_le.trans_lt (length_lt_of_suffix front suffix)
      obtain ⟨hwell, hwhole⟩ := hlonger _ .whole hlt
      exact ⟨hwhole, .inr ⟨hwell, cut, hinner, hmalformed, hlacks, fun longer hcut =>
        hlonger longer ((cut_iff h).2 (.inr hcut))⟩⟩
  · rintro ⟨hwhole, hmalformed | ⟨hwell, cut, hcut, hmalformed, hlacks, hlonger⟩⟩
    · exact ⟨_, .whole, hmalformed, hwhole, fun longer hcut hlt =>
        absurd hcut.length_le (Nat.not_le.2 hlt)⟩
    · refine ⟨cut, (cut_iff h).2 (.inr hcut), hmalformed, hlacks, fun longer hlong hlt => ?_⟩
      rcases (cut_iff h).1 hlong with rfl | hinner
      · exact ⟨hwell, hwhole⟩
      · exact hlonger longer hinner hlt

/-- A name without bracket has no flaw. -/
theorem not_firstFlaw {program : Program} {name : String} (h : '[' ∉ name.toList)
    (error : TypeError) : ¬ program.FirstFlaw name error := by
  rintro ⟨cut, hcut, hmalformed, -⟩
  obtain rfl := hcut.eq_of_not_mem h
  cases hmalformed with
  | unclosed made =>
    rw [made] at h
    exact absurd (by simp) h
  | noSize made =>
    rw [made] at h
    exact absurd (by simp) h

/-! ## New types -/

/-- A program with one more type at the end. -/
def withType (program : Program) (entry : TypeEntry) : Program :=
  { program with
    types := (program.types.alloc entry).2
    typeNames := program.typeNames.insert entry.name program.types.nextRef }

/-- A program with more types at the end. -/
def withTypes (program : Program) (entries : List TypeEntry) : Program :=
  entries.foldl withType program

@[simp] theorem withTypes_nil (program : Program) : program.withTypes [] = program := rfl

/-- Types are added in turn, the first ones first. -/
theorem withTypes_append (program : Program) (entries others : List TypeEntry) :
    program.withTypes (entries ++ others) = (program.withTypes entries).withTypes others := by
  rw [withTypes, withTypes, withTypes, List.foldl_append]

/-- A name is missing still if none of the new types has it. -/
theorem lacks_withTypes (program : Program) (entries : List TypeEntry) (name : String) :
    (program.withTypes entries).lacks name ↔
      program.lacks name ∧ name ∉ entries.map (·.name) := by
  induction entries using List.reverseRecOn with
  | nil => simp
  | append_singleton entries entry ih =>
    rw [withTypes_append]
    change ((program.withTypes entries).withType entry).lacks name ↔ _
    by_cases hname : name = entry.name
    · simp [lacks, withType, hname]
    · have hsame : ((program.withTypes entries).withType entry).lacks name =
          (program.withTypes entries).lacks name := by
        simp [lacks, withType, hname]
      rw [hsame, ih]
      simp [hname]

end Program

namespace Edit

open Program ChainIR.TypeName

variable {program after : Program}

/-! ## The course of a look-up -/

/-- Asking for a type by name finds the type or creates it. -/
theorem intern_apply (name : String) (shape : TypeShape) (program : Program) :
    intern name shape program =
      match program.typeNames.find? name with
      | some ref => .ok (ref, program)
      | none => .ok (program.types.nextRef, program.withType ⟨name, shape⟩) := by
  rw [intern]
  cases program.typeNames.find? name <;> rfl

/-- A type that is created has its name. -/
theorem interned_withType (h : program.Interned) {tree : TypeTree} {shape : TypeShape}
    (hlacks : program.lacks tree.name) (hshape : program.HasShape shape tree) :
    (program.withType ⟨tree.name, shape⟩).Interned ∧
      (program.withType ⟨tree.name, shape⟩).typeName program.types.nextRef = .ok tree.name := by
  have hnew : intern tree.name shape program =
      .ok (program.types.nextRef, program.withType ⟨tree.name, shape⟩) := by
    rw [intern_apply, Option.isNone_iff_eq_none.1 hlacks]
  obtain ⟨-, hinterned, hentry⟩ := (intern_yields h hshape).of_eq_ok hnew
  exact ⟨hinterned, typeName_eq_ok.2 ⟨_, hentry, rfl⟩⟩

/-- Asking for an array creates the array if it is missing, and nothing else. -/
theorem arrayType_created {element ref : TypeRef} {size : UInt64} {name : String}
    (helement : program.typeName element = .ok name)
    (hrun : arrayType element size program = .ok (ref, after)) :
    ∃ added, after = program.withTypes added ∧
      added.map (·.name) = [TypeName.array name size].filter program.lacks := by
  rw [arrayType, Step.bind_of_ok (ask_of_ok helement), intern_apply] at hrun
  cases hfind : program.typeNames.find? (TypeName.array name size) with
  | some found =>
    rw [hfind] at hrun
    obtain ⟨-, rfl⟩ := Prod.mk.inj (Except.ok.inj hrun)
    exact ⟨[], rfl, by simp [lacks, hfind]⟩
  | none =>
    rw [hfind] at hrun
    obtain ⟨-, rfl⟩ := Prod.mk.inj (Except.ok.inj hrun)
    exact ⟨[⟨TypeName.array name size, .array element size⟩], rfl, by simp [lacks, hfind]⟩

/-- How the pieces of a name are resolved, the last suffix first. -/
inductive Resolves (program : Program) (base : List Char) :
    List (List Char) → Except TypeError (Option TypeRef) → Program → Prop
  /-- The name is interned. -/
  | interned {suffixes : List (List Char)} {ref : TypeRef}
    (found : program.typeNames.find? (joined base suffixes) = some ref) :
    Resolves program base suffixes (.ok (some ref)) program
  /-- The name is that of a primitive type, which is created. -/
  | primitive {tree : TypeTree} {shape : TypeShape} (named : String.ofList base = tree.name)
    (isPrimitive : tree.name ∈ ["void", "num", "chr", "str"]) (lacks : program.lacks tree.name)
    (hasShape : program.HasShape shape tree) :
    Resolves program base [] (.ok (some program.types.nextRef))
      (program.withType ⟨tree.name, shape⟩)
  /-- The name has no suffix and is unknown. -/
  | unknown (lacks : program.lacks (String.ofList base))
    (notPrimitive : String.ofList base ∉ ["void", "num", "chr", "str"]) :
    Resolves program base [] (.ok none) program
  /-- The last suffix is malformed. -/
  | flawed {suffix : List Char} {inner : List (List Char)} {error : TypeError}
    (lacks : program.lacks (joined base (suffix :: inner)))
    (flaw : suffixSize (joined base (suffix :: inner)) suffix = .error error) :
    Resolves program base (suffix :: inner) (.error error) program
  /-- The name in front of the last suffix denotes a type, and an array is put around it. -/
  | array {suffix : List Char} {inner : List (List Char)} {size : UInt64}
    {element ref : TypeRef} {between after : Program}
    (lacks : program.lacks (joined base (suffix :: inner)))
    (isSize : suffixSize (joined base (suffix :: inner)) suffix = .ok size)
    (front : Resolves program base inner (.ok (some element)) between)
    (run : arrayType element size between = .ok (ref, after)) :
    Resolves program base (suffix :: inner) (.ok (some ref)) after
  /-- The name in front of the last suffix denotes no type. -/
  | failed {suffix : List Char} {inner : List (List Char)} {size : UInt64}
    {answer : Except TypeError (Option TypeRef)} {after : Program}
    (lacks : program.lacks (joined base (suffix :: inner)))
    (isSize : suffixSize (joined base (suffix :: inner)) suffix = .ok size)
    (front : Resolves program base inner answer after) (noType : ∀ ref, answer ≠ .ok (some ref)) :
    Resolves program base (suffix :: inner) answer after

/-- A name without suffix is resolved in one of three ways. -/
theorem resolves_of_baseType? {base : List Char} {answer : Option TypeRef}
    (hrun : baseType? (String.ofList base) program = .ok (answer, after)) :
    Resolves program base [] (.ok answer) after := by
  cases hfind : program.typeNames.find? (String.ofList base) with
  | some ref =>
    obtain ⟨rfl, rfl⟩ := Prod.mk.inj (Except.ok.inj (hrun.symm.trans (baseType?_of_find? hfind)))
    exact .interned (by rw [joined_nil, hfind])
  | none =>
    have hlacks : program.lacks (String.ofList base) := by rw [lacks, hfind]; rfl
    unfold baseType? at hrun
    rw [Step.bind_of_ok (Step.get_apply program), hfind] at hrun
    dsimp only at hrun
    have primitive : ∀ name (tree : TypeTree) shape, tree.name = name →
        name ∈ ["void", "num", "chr", "str"] → program.HasShape shape tree →
        String.ofList base = name → (some <$> intern name shape) program = .ok (answer, after) →
        Resolves program base [] (.ok answer) after := by
      rintro name tree shape rfl hprimitive hshape hname hintern
      rw [hname] at hfind hlacks
      have hnew : intern tree.name shape program =
          .ok (program.types.nextRef, program.withType ⟨tree.name, shape⟩) := by
        rw [intern_apply, hfind]
      rw [map_eq_pure_bind, Step.bind_of_ok hnew] at hintern
      obtain ⟨rfl, rfl⟩ := Prod.mk.inj (Except.ok.inj hintern)
      exact .primitive hname hprimitive hlacks hshape
    have unknown : String.ofList base ∉ ["void", "num", "chr", "str"] →
        (.ok (none, program) : Except Fault (Option TypeRef × Program)) = .ok (answer, after) →
        Resolves program base [] (.ok answer) after := by
      intro hname hpure
      obtain ⟨rfl, rfl⟩ := Prod.mk.inj (Except.ok.inj hpure)
      exact .unknown hlacks hname
    -- the cases are those of the name
    generalize String.ofList base = name at hrun primitive unknown
    split at hrun
    · exact primitive "void" .void .void (by rw [TypeTree.name]) (by decide) trivial rfl hrun
    · exact primitive "num" .num .num (by rw [TypeTree.name]) (by decide) trivial rfl hrun
    · exact primitive "chr" .chr .chr (by rw [TypeTree.name]) (by decide) trivial rfl hrun
    · exact primitive "str" .str .str (by rw [TypeTree.name]) (by decide) trivial rfl hrun
    · next hvoid hnum hchr hstr =>
      refine unknown ?_ hrun
      simp only [List.mem_cons, List.not_mem_nil, or_false, not_or]
      exact ⟨hvoid, hnum, hchr, hstr⟩

/-- Every look-up takes such a course. -/
theorem resolves_of_typeOfPieces {base : List Char} {suffixes : List (List Char)}
    {answer : Except TypeError (Option TypeRef)}
    (hrun : typeOfPieces base suffixes program = .ok (answer, after)) :
    Resolves program base suffixes answer after := by
  -- the cases of the induction are those of the search: found, flawed or an element to look for
  induction suffixes generalizing answer after with
  | nil =>
    rw [typeOfPieces, map_eq_pure_bind] at hrun
    obtain ⟨found?, middle, hbase, hlast⟩ := Step.bind_eq_ok.1 hrun
    obtain ⟨rfl, rfl⟩ := Prod.mk.inj (Except.ok.inj hlast)
    exact resolves_of_baseType? hbase
  | cons suffix inner ih =>
    cases hfind : program.typeNames.find? (joined base (suffix :: inner)) with
    | some ref =>
      obtain ⟨rfl, rfl⟩ :=
        Prod.mk.inj (Except.ok.inj (hrun.symm.trans (typeOfPieces_of_find? hfind)))
      exact .interned hfind
    | none =>
      have hlacks : program.lacks (joined base (suffix :: inner)) := by rw [lacks, hfind]; rfl
      cases hsize : suffixSize (joined base (suffix :: inner)) suffix with
      | error error =>
        rw [typeOfPieces, Step.bind_of_ok (Step.get_apply program), hfind, hsize] at hrun
        obtain ⟨rfl, rfl⟩ := Prod.mk.inj (Except.ok.inj hrun)
        exact .flawed hlacks hsize
      | ok size =>
        rw [typeOfPieces_of_none hfind hsize] at hrun
        obtain ⟨middle, between, hinner, hlast⟩ := Step.bind_eq_ok.1 hrun
        split at hlast
        · rw [map_eq_pure_bind] at hlast
          obtain ⟨ref, final, harray, hpure⟩ := Step.bind_eq_ok.1 hlast
          obtain ⟨rfl, rfl⟩ := Prod.mk.inj (Except.ok.inj hpure)
          exact .array hlacks hsize (ih hinner) harray
        · next hother =>
          obtain ⟨rfl, rfl⟩ := Prod.mk.inj (Except.ok.inj hlast)
          exact .failed hlacks hsize (ih hinner) hother

namespace Resolves

variable {base : List Char} {suffixes : List (List Char)}
  {answer : Except TypeError (Option TypeRef)}

/-- A look-up that finds no type leaves nothing behind. -/
theorem unchanged (h : Resolves program base suffixes answer after)
    (hnone : ∀ ref, answer ≠ .ok (some ref)) : after = program := by
  induction h with
  | interned | unknown | flawed => rfl
  | primitive | array => exact absurd rfl (hnone _)
  | failed _ _ _ hother ih => exact ih hother

/-- What goes wrong in a look-up is the first flaw of the name. -/
theorem error_iff (h : Resolves program base suffixes answer after)
    (hpieces : ∀ piece ∈ base :: suffixes, '[' ∉ piece) (error : TypeError) :
    answer = .error error ↔ program.FirstFlaw (joined base suffixes) error := by
  have hbase : '[' ∉ (joined base []).toList := by
    rw [joined_nil, String.toList_ofList]
    exact hpieces base (.head _)
  -- a size at the end hands the question on to the name in front of it
  have handOn : ∀ {suffix inner size}, (∀ piece ∈ base :: suffix :: inner, '[' ∉ piece) →
      program.lacks (joined base (suffix :: inner)) →
      suffixSize (joined base (suffix :: inner)) suffix = .ok size →
      (program.FirstFlaw (joined base (suffix :: inner)) error ↔
        program.FirstFlaw (joined base inner) error) := by
    intro suffix inner size hpieces hlacks hsize
    have hsuffix : '[' ∉ suffix := hpieces suffix (.tail _ (.head _))
    rw [joined_cons] at hlacks hsize ⊢
    rw [firstFlaw_iff hsuffix, malformed_iff hsuffix, endsInSize_iff hsuffix, hsize]
    simp [hlacks]
  induction h with
  | @interned suffixes ref found =>
    refine iff_of_false (by simp) ?_
    have hinterned : ¬ program.lacks (joined base suffixes) := by simp [lacks, found]
    rintro ⟨cut, hcut, -, hlacks, hlonger⟩
    rcases hcut.eq_or_length_lt with rfl | hlt
    · exact hinterned hlacks
    · exact hinterned (hlonger _ .whole hlt).2
  | primitive => exact iff_of_false (by simp) (not_firstFlaw hbase error)
  | unknown => exact iff_of_false (by simp) (not_firstFlaw hbase error)
  | @flawed suffix inner found hlacks flaw =>
    have hsuffix : '[' ∉ suffix := hpieces suffix (.tail _ (.head _))
    rw [joined_cons] at hlacks flaw ⊢
    rw [firstFlaw_iff hsuffix, malformed_iff hsuffix, endsInSize_iff hsuffix, flaw]
    simp [hlacks]
  | array hlacks isSize _ _ ih =>
    have hinner := ih (pieces_of_cons hpieces)
    refine iff_of_false (by simp) fun hflaw => ?_
    exact absurd (hinner.2 ((handOn hpieces hlacks isSize).1 hflaw)) (by simp)
  | failed hlacks isSize _ _ ih =>
    exact (ih (pieces_of_cons hpieces)).trans (handOn hpieces hlacks isSize).symm

/-- A look-up that finds a type creates what is missing of the type at the base and of the arrays
around it, in whatever way the name is taken to be made, and nothing else. -/
theorem created (h : Resolves program base suffixes answer after) (hinterned : program.Interned)
    (hpieces : ∀ piece ∈ base :: suffixes, '[' ∉ piece) {known : String}
    (hknows : program.KnowsName known) {sizes : List UInt64}
    (hsuffixed : Suffixed known (joined base suffixes) sizes) {ref : TypeRef}
    (hanswer : answer = .ok (some ref)) :
    after.Interned ∧ after.typeName ref = .ok (sizes.foldl TypeName.array known) ∧
      ∃ added, after = program.withTypes added ∧
        added.map (·.name) = (wrappings known sizes).filter program.lacks := by
  obtain ⟨tree, rfl⟩ := hinterned.exists_tree hknows
  induction h generalizing sizes ref with
  | @interned suffixes found hfind =>
    obtain rfl : found = ref := Option.some.inj (Except.ok.inj hanswer)
    -- what is interned has a canonical name
    have hname := hinterned.typeName_of_find? hfind
    obtain ⟨other, hother⟩ := hinterned.exists_tree (.inl ⟨found, hname⟩)
    have hcanonical := hsuffixed.canonical_eq
    rw [hother, TypeTree.canonical_name, ← hother] at hcanonical
    rw [hcanonical] at hname
    refine ⟨hinterned, hname, [], rfl, ?_⟩
    exact (List.filter_eq_nil_iff.2 (hinterned.wrappings_of_typeName hname)).symm
  | @primitive other shape named _ hlacks hasShape =>
    have hbracket : '[' ∉ (joined base []).toList := by
      rw [joined_nil, String.toList_ofList]
      exact hpieces base (.head _)
    obtain ⟨hname, rfl⟩ := hsuffixed.of_not_mem hbracket
    rw [joined_nil, named] at hname
    obtain rfl : program.types.nextRef = ref := Option.some.inj (Except.ok.inj hanswer)
    obtain ⟨hafter, htype⟩ := interned_withType hinterned hlacks hasShape
    rw [hname]
    exact ⟨hafter, htype, [⟨other.name, shape⟩], rfl, by simp [wrappings, hlacks]⟩
  | unknown | flawed => exact absurd hanswer (by simp)
  | failed _ _ _ noType => exact absurd hanswer (noType ref)
  | @array suffix inner size element found between after hlacks isSize _ run ih =>
    obtain rfl : found = ref := Option.some.inj (Except.ok.inj hanswer)
    have hsuffix : '[' ∉ suffix := hpieces suffix (.tail _ (.head _))
    rcases hsuffixed.cases_of_joined hsuffix with hwhole | ⟨before, text, other, rfl, rfl, hsize, hinner⟩
    · -- a known name with a bracket is interned
      rw [hwhole] at hknows
      obtain ⟨stored, hstored⟩ := hknows.exists_ref (by rw [toList_joined_cons]; simp)
      exact absurd hstored (hinterned.lacks_iff.1 hlacks stored)
    obtain rfl : size = other :=
      Except.ok.inj (isSize.symm.trans (suffixSize_eq_ok.2 ⟨text, rfl, hsize⟩))
    obtain ⟨hbetween, helement, added, rfl, hnames⟩ := ih (pieces_of_cons hpieces) rfl hinner
    obtain ⟨entries, hafter, hentries⟩ := arrayType_created helement run
    rw [← TypeTree.name_foldl_array] at helement
    obtain ⟨-, hlast, hentry⟩ := (arrayType_yields hbetween size helement).of_eq_ok run
    have hname : ((before.foldl TypeTree.array tree).array size).name =
        (before ++ [size]).foldl TypeName.array tree.name := by
      rw [TypeTree.name, TypeTree.name_foldl_array, List.foldl_append, List.foldl_cons,
        List.foldl_nil]
    refine ⟨hlast, typeName_eq_ok.2 ⟨_, hentry, hname⟩, added ++ entries, ?_, ?_⟩
    · rw [hafter, withTypes_append]
    · -- none of the types inside has the name of the outermost array
      have houter : TypeName.array (before.foldl TypeName.array tree.name) size ∉
          added.map (·.name) := by
        rw [hnames]
        intro hmem
        have hle := length_le_of_mem_wrappings (List.mem_of_mem_filter hmem)
        exact absurd (length_lt_array _ _) (Nat.not_lt.2 hle)
      rw [List.map_append, hnames, hentries, wrappings_concat, List.filter_append]
      have hsame := lacks_withTypes program added
        (TypeName.array (before.foldl TypeName.array tree.name) size)
      rw [and_iff_left houter] at hsame
      rw [List.filter_singleton, List.filter_singleton, Bool.eq_iff_iff.2 hsame]

end Resolves

end Edit

namespace Program

open ChainIR.TypeName

/-! ## What is left behind -/

/-- **A look-up that fails leaves no trace.** However a program has come about, looking up a name
that denotes no type leaves it as it was. What goes wrong is the flaw of the longest name that is
left of it when suffixes are cut off, while all longer ones end in sizes and none has been interned.
If the name denotes a type, the types that are created are those of the base and of the arrays
around it that were missing, from the inside out and behind all types that there were. -/
theorem Reachable.typeByName_traceless {program : Program} (h : program.Reachable)
    (name : String) :
    ∃ answer after, Edit.typeByName name program = .ok (answer, after) ∧
      ((∀ ref, answer ≠ .ok (some ref)) → after = program) ∧
      (∀ error, answer = .error error ↔ program.FirstFlaw name error) ∧
      ∀ ref, answer = .ok (some ref) →
        (∃ base sizes, program.KnowsName base ∧ Suffixed base name sizes) ∧
        ∀ base sizes, program.KnowsName base → Suffixed base name sizes →
          ∃ added element, after = program.withTypes added ∧
            added.map (·.name) = (wrappings base sizes).filter program.lacks ∧
            after.typeName element = .ok base ∧ after.Wraps element sizes ref := by
  have hinterned := h.requested.interned
  obtain ⟨answer, after, hrun, hsome, hwraps⟩ := hinterned.exists_typeByName name
  obtain ⟨base, suffixes, hpieces, -, hjoined, hbrackets⟩ := exists_pieces name
  have hresolves := Edit.resolves_of_typeOfPieces ((congrFun hpieces program).symm.trans hrun)
  refine ⟨answer, after, hrun, hresolves.unchanged, fun error => ?_, fun ref hanswer => ?_⟩
  · rw [hresolves.error_iff hbrackets, hjoined]
  · refine ⟨hsome.1 ⟨ref, hanswer⟩, fun known sizes hknows hsuffixed => ?_⟩
    obtain ⟨-, element, helement, harrays⟩ := hwraps ref known sizes hanswer hknows hsuffixed
    rw [← hjoined] at hsuffixed
    obtain ⟨-, -, added, hafter, hnames⟩ :=
      hresolves.created hinterned hbrackets hknows hsuffixed hanswer
    exact ⟨added, element, hafter, hnames, helement, harrays⟩

/-- Looking up arrays of characters creates the type of characters and the arrays around it. A
malformed suffix behind a sound one creates nothing. -/
theorem typeByName_nested :
    (∃ ref added, Edit.typeByName "chr[2][5]" initial =
        .ok (.ok (some ref), initial.withTypes added) ∧
      added.map (·.name) = ["chr", "chr[2]", "chr[2][5]"]) ∧
    Edit.typeByName "chr[2][x][7]" initial =
      .ok (.error (.malformedArraySize "chr[2][x]"), initial) := by
  constructor
  · have hknows : initial.KnowsName "chr" := .inr (by decide)
    have hsuffixed : Suffixed "chr" "chr[2][5]" [2, 5] :=
      .suffix (.suffix .base (size?_eq_some.1 (by decide +kernel : size? ['2'] = some 2)))
        (size?_eq_some.1 (by decide +kernel : size? ['5'] = some 5))
    obtain ⟨answer, after, hrun, -, -, hcreates⟩ :=
      Reachable.typeByName_traceless .initial "chr[2][5]"
    -- both general theorems speak of the same run
    obtain ⟨other, final, hother, hsome, -⟩ :=
      Reachable.initial.requested.interned.exists_typeByName "chr[2][5]"
    obtain ⟨rfl, rfl⟩ := Prod.mk.inj (Except.ok.inj (hrun.symm.trans hother))
    obtain ⟨ref, rfl⟩ := hsome.2 ⟨"chr", [2, 5], hknows, hsuffixed⟩
    obtain ⟨added, -, rfl, hnames, -⟩ := (hcreates ref rfl).2 "chr" [2, 5] hknows hsuffixed
    refine ⟨ref, added, hrun, hnames.trans ?_⟩
    decide +kernel
  · obtain ⟨answer, after, hrun, hunchanged, herror, -⟩ :=
      Reachable.typeByName_traceless .initial "chr[2][x][7]"
    have hflaw : initial.FirstFlaw "chr[2][x][7]" (.malformedArraySize "chr[2][x]") := by
      have hlacks : initial.lacks "chr[2][x][7]" ∧ initial.lacks "chr[2][x]" := by decide +kernel
      have hsize : EndsInSize ("chr[2][x]" ++ "[" ++ String.ofList ['7', ']']) :=
        (endsInSize_iff (by decide)).2 ⟨7, by decide +kernel⟩
      have hmalformed : Malformed ("chr[2]" ++ "[" ++ String.ofList ['x', ']'])
          (.malformedArraySize "chr[2][x]") := (malformed_iff (by decide)).2 (by decide +kernel)
      have hinner : initial.FirstFlaw "chr[2][x]" (.malformedArraySize "chr[2][x]") :=
        (@firstFlaw_iff initial "chr[2]" ['x', ']'] (by decide) _).2 ⟨hlacks.2, .inl hmalformed⟩
      exact (@firstFlaw_iff initial "chr[2][x]" ['7', ']'] (by decide) _).2
        ⟨hlacks.1, .inr ⟨hsize, hinner⟩⟩
    obtain rfl := (herror _).2 hflaw
    rw [hrun, hunchanged (by simp)]

/-! ## Names without a suffix at the end -/

/-- A name that does not end in a bracket, has not been interned and is no primitive one is unknown
if there is no bracket in it, and else it is malformed. -/
theorem Interned.typeByName_open {program : Program} (h : program.Interned) {name : String}
    (hlacks : program.lacks name) (hprimitive : name ∉ ["void", "num", "chr", "str"])
    (hopen : name.toList.getLast? ≠ some ']') :
    Edit.typeByName name program =
      .ok (if '[' ∈ name.toList then .error (.malformedTypeName name) else .ok none, program) := by
  obtain ⟨answer, after, hrun, -⟩ := Edit.typeByName_yields h name
  obtain ⟨base, suffixes, hpieces, -, rfl, hbrackets⟩ := exists_pieces name
  have hresolves := Edit.resolves_of_typeOfPieces ((congrFun hpieces program).symm.trans hrun)
  -- no suffix is closed at the end of the name
  have hends : ∀ front : String, joined base suffixes ≠ front ++ "]" := by
    intro front hfront
    rw [hfront, String.toList_append] at hopen
    exact hopen List.getLast?_concat
  have hsuffix : ∀ suffix inner size, suffixes = suffix :: inner →
      suffixSize (joined base (suffix :: inner)) suffix ≠ .ok size := by
    rintro suffix inner size rfl hsize
    obtain ⟨text, rfl, -⟩ := suffixSize_eq_ok.1 hsize
    exact hends _ ((joined_cons _ _ _).trans (closed_suffix _ _).symm)
  rw [hrun]
  cases hresolves with
  | interned hfind => simp [lacks, hfind] at hlacks
  | primitive named isPrimitive =>
    rw [joined_nil, named] at hprimitive
    exact absurd isPrimitive hprimitive
  | unknown =>
    have hbase : '[' ∉ (joined base []).toList := by
      rw [joined_nil, String.toList_ofList]
      exact hbrackets base (.head _)
    rw [if_neg hbase]
  | @flawed suffix inner error _ flaw =>
    have hbracket : '[' ∈ (joined base (suffix :: inner)).toList := by
      rw [toList_joined_cons]
      simp
    rw [if_pos hbracket]
    rw [joined_cons] at flaw hends ⊢
    cases (malformed_iff (hbrackets suffix (.tail _ (.head _)))).2 flaw with
    | unclosed => rfl
    | noSize made => exact absurd made (hends _)
  | array _ isSize => exact absurd isSize (hsuffix _ _ _ rfl)
  | failed _ isSize => exact absurd isSize (hsuffix _ _ _ rfl)

end Program

/-! ## Names of function types -/

namespace TypeTree

/-- An array stands in the name of a type. -/
inductive HasArray : TypeTree → Prop
  /-- The type is an array. -/
  | array {element : TypeTree} {size : UInt64} : HasArray (.array element size)
  /-- An array stands in what a function returns. -/
  | result {result : TypeTree} {params : List TypeTree} {variadic : Bool}
    (inside : HasArray result) : HasArray (.function result params variadic)
  /-- An array stands in what a function takes. -/
  | param {result param : TypeTree} {params : List TypeTree} {variadic : Bool}
    (listed : param ∈ params) (inside : HasArray param) :
    HasArray (.function result params variadic)

/-- What is not in the separator is in one of the pieces. -/
theorem mem_intercalate {c : Char} {separator : List Char} (h : c ∉ separator)
    {pieces : List (List Char)} : c ∈ separator.intercalate pieces ↔ ∃ piece ∈ pieces, c ∈ piece := by
  induction pieces with
  | nil => simp
  | cons first rest ih =>
    by_cases hrest : rest = []
    · simp [hrest]
    · simp [List.intercalate_cons_of_ne_nil hrest, h, ih]

/-- There is a bracket in the name of a type exactly if an array stands in it. -/
theorem mem_bracket_iff (tree : TypeTree) : '[' ∈ tree.name.toList ↔ tree.HasArray := by
  induction tree using TypeTree.induct with
  | void | num | chr | str =>
    rw [name]
    refine iff_of_false (by decide) fun harray => ?_
    cases harray
  | array element size _ =>
    rw [name, toList_array]
    exact iff_of_true (by simp) .array
  | function result params variadic hresult hparams =>
    have hvariadic : '[' ∉ (if variadic then ['?'] else []) := by cases variadic <;> decide
    -- neither the separators nor the parentheses hold a bracket, so it is in a part
    have hlisted : '[' ∈ [',', ' '].intercalate ((params.map name).map String.toList) ↔
        ∃ param ∈ params, param.HasArray := by
      rw [mem_intercalate (by decide), List.map_map]
      constructor
      · intro hmem
        obtain ⟨param, hparam, hbracket⟩ : ∃ param ∈ params, '[' ∈ param.name.toList := by
          simpa using hmem
        exact ⟨param, hparam, (hparams param hparam).1 hbracket⟩
      · rintro ⟨param, hparam, hinside⟩
        exact ⟨param.name.toList, List.mem_map_of_mem hparam, (hparams param hparam).2 hinside⟩
    rw [name, toList_function]
    generalize [',', ' '].intercalate ((params.map name).map String.toList) = listing at hlisted ⊢
    have hparts : '[' ∈ result.name.toList ++ ('(' :: (listing ++ [')']) ++
        if variadic then ['?'] else []) ↔ '[' ∈ result.name.toList ∨ '[' ∈ listing := by
      simp [hvariadic]
    rw [hparts, hresult, hlisted]
    constructor
    · rintro (hinside | ⟨param, hparam, hinside⟩)
      · exact .result hinside
      · exact .param hparam hinside
    · intro harray
      cases harray with
      | result inside => exact .inl inside
      | param listed inside => exact .inr ⟨_, listed, inside⟩

end TypeTree

namespace Program

/-- **Function types are not created by name.** However a program has come about, the name of a
function type that has not been interned denotes no type, and looking it up leaves the program as it
was. The name is unknown if no array stands in the function type. If one does, however deep, the
name is malformed: it is cut at the last bracket of an array, and what stands behind that bracket is
not closed at the end of the name. -/
theorem Reachable.typeByName_function {program : Program} (h : program.Reachable)
    (result : TypeTree) (params : List TypeTree) (variadic : Bool)
    (hmissing : ∀ ref, program.typeName ref ≠ .ok (TypeTree.function result params variadic).name) :
    (¬ (TypeTree.function result params variadic).HasArray →
      Edit.typeByName (TypeTree.function result params variadic).name program =
        .ok (.ok none, program)) ∧
    ((TypeTree.function result params variadic).HasArray →
      Edit.typeByName (TypeTree.function result params variadic).name program =
        .ok (.error (.malformedTypeName (TypeTree.function result params variadic).name),
          program)) := by
  have hinterned := h.requested.interned
  generalize htree : TypeTree.function result params variadic = tree at *
  have hlast : tree.name.toList.getLast? = some ')' ∨ tree.name.toList.getLast? = some '?' := by
    rw [TypeTree.getLast?_name, ← htree, TypeTree.ending]
    cases variadic <;> simp
  have hopen : tree.name.toList.getLast? ≠ some ']' := by
    rcases hlast with hlast | hlast <;> rw [hlast] <;> decide
  have hprimitive : tree.name ∉ ["void", "num", "chr", "str"] := by
    intro hmem
    generalize tree.name = name at hmem hlast
    fin_cases hmem <;> exact absurd hlast (by decide)
  have hlookup := hinterned.typeByName_open (hinterned.lacks_iff.2 hmissing) hprimitive hopen
  rw [hlookup, ← TypeTree.mem_bracket_iff]
  exact ⟨fun hnone => by rw [if_neg hnone], fun hsome => by rw [if_pos hsome]⟩

/-- The initial program does not know functions on characters or on arrays of numbers: the name of
the former is unknown, that of the latter is malformed. -/
theorem typeByName_of_missing :
    Edit.typeByName "num(chr)" initial = .ok (.ok none, initial) ∧
    Edit.typeByName "num(num[3])" initial =
      .ok (.error (.malformedTypeName "num(num[3])"), initial) := by
  have hplain : (TypeTree.function .num [.chr] false).name = "num(chr)" := by
    simp only [TypeTree.name, List.map]
    decide
  have hnested : (TypeTree.function .num [.array .num 3] false).name = "num(num[3])" := by
    simp only [TypeTree.name, List.map]
    decide +kernel
  have hlacks : ∀ name, initial.lacks name → ∀ ref, initial.typeName ref ≠ .ok name := fun _ =>
    Reachable.initial.requested.interned.lacks_iff.1
  constructor
  · have hnone := (Reachable.initial.typeByName_function .num [.chr] false
      (hplain ▸ hlacks _ (by decide +kernel))).1
    rw [hplain] at hnone
    refine hnone ?_
    -- neither `num` nor `chr` has an array inside
    rintro (_ | inside | ⟨listed, inside⟩)
    · cases inside
    · obtain rfl := List.mem_singleton.1 listed
      cases inside
  · have hmalformed := (Reachable.initial.typeByName_function .num [.array .num 3] false
      (hnested ▸ hlacks _ (by decide +kernel))).2
    rw [hnested] at hmalformed
    exact hmalformed (.param (.head _) .array)

end Program

end ChainIR
