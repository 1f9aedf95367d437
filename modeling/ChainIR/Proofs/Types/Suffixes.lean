import Mathlib
import ChainIR.Proofs.Reading.Requests

/-! # Names with array suffixes

A name denotes a type exactly if it is a known name with array suffixes behind it, and then it
denotes arrays of these sizes over the type of the known name, the first suffix innermost
(`Program.Reachable.typeByName_iff`). The name is taken apart from its end, and taking apart stops
at the first name that is interned, so the same name is taken apart differently in different
programs; what it denotes depends on its text alone, because an interned name is canonical.

* `TypeName.IsSize`: the texts of array sizes, canonical or not.
* `TypeName.Suffixed`: names that are made of a base and suffixes, in one of several ways.
* `Program.Wraps`: types that are made of a type and arrays around it. -/

namespace ChainIR

namespace TypeName

/-! ## Sizes -/

/-- A text is a size: a plus or nothing, and then decimal digits, at least one. -/
def IsSize (text : List Char) (size : UInt64) : Prop :=
  ∃ sign digits, text = sign ++ digits ∧ (sign = [] ∨ sign = ['+']) ∧ digits ≠ [] ∧
    (∀ c ∈ digits, c.isDigit) ∧ Nat.ofDigitChars 10 digits 0 = size.toNat

/-- Digits are read as a size exactly if their value is that of a size. -/
theorem size_of_digits {digits : List Char} {size : UInt64} :
    (if digits ≠ [] ∧ digits.all Char.isDigit ∧ Nat.ofDigitChars 10 digits 0 < UInt64.size then
        some (UInt64.ofNat (Nat.ofDigitChars 10 digits 0)) else none) = some size ↔
      digits ≠ [] ∧ (∀ c ∈ digits, c.isDigit) ∧ Nat.ofDigitChars 10 digits 0 = size.toNat := by
  rw [Option.ite_none_right_eq_some, List.all_eq_true, Option.some.injEq]
  constructor
  · rintro ⟨⟨hne, hdigits, hlt⟩, rfl⟩
    refine ⟨hne, hdigits, ?_⟩
    rw [UInt64.toNat_ofNat', Nat.mod_eq_of_lt hlt]
  · rintro ⟨hne, hdigits, hvalue⟩
    rw [hvalue]
    exact ⟨⟨hne, hdigits, size.toNat_lt⟩, UInt64.ofNat_toNat⟩

/-- A text without plus in front is read as digits. -/
theorem size?_of_unsigned {text : List Char} {size : UInt64} (h : ∀ rest, text ≠ '+' :: rest) :
    size? text = some size ↔ text ≠ [] ∧ (∀ c ∈ text, c.isDigit) ∧
      Nat.ofDigitChars 10 text 0 = size.toNat := by
  rw [size?]
  · exact size_of_digits
  · exact h

/-- A text is read as a size exactly if it is one. -/
theorem size?_eq_some {text : List Char} {size : UInt64} :
    size? text = some size ↔ IsSize text size := by
  constructor
  · intro h
    by_cases hplus : ∃ rest, text = '+' :: rest
    · obtain ⟨rest, rfl⟩ := hplus
      exact ⟨['+'], rest, rfl, .inr rfl, size_of_digits.1 h⟩
    · rw [not_exists] at hplus
      exact ⟨[], text, rfl, .inl rfl, (size?_of_unsigned hplus).1 h⟩
  · rintro ⟨sign, digits, rfl, rfl | rfl, hsize⟩
    · refine (size?_of_unsigned fun rest hplus => ?_).2 hsize
      -- a plus is no digit
      have hdigit := hsize.2.1 '+' (by rw [← List.nil_append digits, hplus]; exact .head rest)
      exact absurd hdigit (by decide)
    · exact size_of_digits.2 hsize

/-- A size holds no bracket. -/
theorem IsSize.not_mem {text : List Char} {size : UInt64} (h : IsSize text size) : '[' ∉ text := by
  obtain ⟨sign, digits, rfl, hsign, -, hdigits, -⟩ := h
  intro hmem
  rcases List.mem_append.1 hmem with hmem | hmem
  · rcases hsign with rfl | rfl
    · exact absurd hmem List.not_mem_nil
    · exact absurd (List.mem_singleton.1 hmem) (by decide)
  · exact absurd (hdigits '[' hmem) (by decide)

/-- A size is read from the suffix that it closes. -/
theorem suffixSize_eq_ok {name : String} {suffix : List Char} {size : UInt64} :
    suffixSize name suffix = .ok size ↔ ∃ text, suffix = text ++ [']'] ∧ IsSize text size := by
  rw [suffixSize]
  constructor
  · intro h
    split at h
    · next hlast =>
      refine ⟨suffix.dropLast, (List.dropLast_append_getLast? _ hlast).symm, ?_⟩
      split at h
      · next found hfound =>
        obtain rfl : found = size := Except.ok.inj h
        exact size?_eq_some.1 hfound
      · exact absurd h (by simp)
    · exact absurd h (by simp)
  · rintro ⟨text, rfl, hsize⟩
    rw [if_pos List.getLast?_concat, List.dropLast_concat, size?_eq_some.2 hsize]

/-! ## Names that are made of a base and suffixes -/

/-- A name is a base with suffixes behind it, of the given sizes from left to right. -/
inductive Suffixed (base : String) : String → List UInt64 → Prop
  /-- The base alone. -/
  | base : Suffixed base base []
  /-- One more suffix. -/
  | suffix {name : String} {sizes : List UInt64} {text : List Char} {size : UInt64}
    (inner : Suffixed base name sizes) (isSize : IsSize text size) :
    Suffixed base (name ++ "[" ++ String.ofList text ++ "]") (sizes ++ [size])

/-- Pieces with a separator between them, and one more behind. -/
theorem intercalate_concat (separator : List Char) {pieces : List (List Char)}
    (hpieces : pieces ≠ []) (last : List Char) :
    separator.intercalate (pieces ++ [last]) = separator.intercalate pieces ++ separator ++ last := by
  induction pieces with
  | nil => exact absurd rfl hpieces
  | cons first rest ih =>
    by_cases hrest : rest = []
    · subst hrest
      simp
    · rw [List.cons_append, List.intercalate_cons_of_ne_nil (by simp), ih hrest,
        List.intercalate_cons_of_ne_nil hrest]
      simp only [List.append_assoc]

/-- The last suffix of a name stands behind its bracket. -/
theorem toList_joined_cons (base suffix : List Char) (inner : List (List Char)) :
    (joined base (suffix :: inner)).toList = (joined base inner).toList ++ '[' :: suffix := by
  rw [joined, joined, String.toList_ofList, String.toList_ofList, List.reverse_cons,
    ← List.cons_append, intercalate_concat _ (List.cons_ne_nil _ _), List.append_assoc,
    List.singleton_append]

/-- Without suffixes, a name is its base. -/
theorem joined_nil (base : List Char) : joined base [] = String.ofList base := by
  simp [joined]

/-- A name is resolved by its pieces, which make it up and hold no bracket. -/
theorem exists_pieces (name : String) :
    ∃ base suffixes, Edit.typeByName name = Edit.typeOfPieces base suffixes ∧
      canonical name = canonicalOf base suffixes ∧ joined base suffixes = name ∧
      ∀ piece ∈ base :: suffixes, '[' ∉ piece := by
  cases hsplit : name.toList.splitOn '[' with
  | nil => exact absurd hsplit (List.splitOn_ne_nil _ _)
  | cons base suffixes =>
    refine ⟨base, suffixes.reverse, ?_, ?_, ?_, fun piece hmem => ?_⟩
    · rw [Edit.typeByName, hsplit]
    · rw [canonical, hsplit]
    · exact joined_of_splitOn (by rw [hsplit, List.reverse_reverse])
    · have hpiece : piece ∈ name.toList.splitOn '[' := by
        rw [hsplit]
        simpa using hmem
      exact not_mem_of_mem_splitOn hpiece

/-- Without its last suffix a name is made of pieces without brackets still. -/
theorem pieces_of_cons {base suffix : List Char} {inner : List (List Char)}
    (h : ∀ piece ∈ base :: suffix :: inner, '[' ∉ piece) : ∀ piece ∈ base :: inner, '[' ∉ piece := by
  intro piece hmem
  rcases List.mem_cons.1 hmem with rfl | hmem
  · exact h piece (.head _)
  · exact h piece (.tail _ (.tail _ hmem))

/-- One more suffix is one more array, whatever the name in front of it denotes. -/
theorem canonical_suffix (name : String) {text : List Char} {size : UInt64}
    (h : IsSize text size) :
    canonical (name ++ "[" ++ String.ofList text ++ "]") = array (canonical name) size := by
  have hbracket : '[' ∉ text ++ [']'] := by simpa using h.not_mem
  have hsplit : (name ++ "[" ++ String.ofList text ++ "]").toList.splitOn '[' =
      name.toList.splitOn '[' ++ [text ++ [']']] := by
    rw [← List.splitOn_eq_singleton hbracket, ← List.splitOn_append_cons_self]
    simp
  obtain ⟨base, suffixes, hpieces⟩ :=
    List.exists_cons_of_ne_nil (List.splitOn_ne_nil '[' name.toList)
  rw [canonical, canonical, hsplit, hpieces, List.cons_append]
  dsimp only
  rw [List.reverse_append, List.reverse_singleton, List.singleton_append, canonicalOf,
    suffixSize_eq_ok.2 ⟨text, rfl, h⟩]

/-- A type name with suffixes denotes arrays of these sizes, in whatever way the name is taken to
be made. -/
theorem Suffixed.canonical_eq {tree : TypeTree} {name : String} {sizes : List UInt64}
    (h : Suffixed tree.name name sizes) : canonical name = sizes.foldl array tree.name := by
  induction h with
  | base => exact tree.canonical_name
  | suffix _ hsize ih => rw [canonical_suffix _ hsize, ih, List.foldl_append, List.foldl_cons,
      List.foldl_nil]

/-- A base with suffixes that ends with a given piece is the base alone, or the piece is its last
suffix. -/
theorem Suffixed.cases_of_joined {name : String} {base suffix : List Char}
    {inner : List (List Char)} {sizes : List UInt64} (hsuffix : '[' ∉ suffix)
    (h : Suffixed name (joined base (suffix :: inner)) sizes) :
    name = joined base (suffix :: inner) ∨
      ∃ before text size, sizes = before ++ [size] ∧ suffix = text ++ [']'] ∧ IsSize text size ∧
        Suffixed name (joined base inner) before := by
  generalize hwhole : joined base (suffix :: inner) = whole at h
  cases h with
  | base => exact .inl rfl
  | @suffix front before text size hinner hsize =>
    -- the last bracket is that of the suffix, on both sides
    have htext : (joined base inner).toList ++ '[' :: suffix =
        front.toList ++ '[' :: (text ++ [']']) := by
      rw [← toList_joined_cons, hwhole]
      simp
    obtain ⟨hfront, rfl⟩ :=
      TypeTree.cut_at_last hsuffix (by simpa using hsize.not_mem) htext
    rw [String.toList_injective hfront]
    exact .inr ⟨before, text, size, rfl, rfl, hsize, hinner⟩

/-- A name without bracket is made of itself alone. -/
theorem Suffixed.of_not_mem {base name : String} {sizes : List UInt64}
    (h : Suffixed base name sizes) (hname : '[' ∉ name.toList) : base = name ∧ sizes = [] := by
  cases h with
  | base => exact ⟨rfl, rfl⟩
  | suffix => exact absurd (by simp) hname

end TypeName

/-! ## Types that are wrapped in arrays -/

/-- The name of a type that is wrapped in arrays. -/
theorem TypeTree.name_foldl_array (sizes : List UInt64) (tree : TypeTree) :
    (sizes.foldl TypeTree.array tree).name = sizes.foldl TypeName.array tree.name := by
  induction sizes generalizing tree with
  | nil => rfl
  | cons size sizes ih => rw [List.foldl_cons, List.foldl_cons, ih, TypeTree.name]

/-- A type whose name is that of an array is an array. -/
theorem TypeTree.exists_of_array_eq_name {tree : TypeTree} {element : String} {size : UInt64}
    (h : TypeName.array element size = tree.name) : ∃ inner : TypeTree, element = inner.name := by
  have hlast : tree.name.toList.getLast? = some ']' := by
    rw [← h, toList_array]
    simp [List.getLast?_cons]
  have hending : tree.ending = ']' := Option.some.inj (tree.getLast?_name.symm.trans hlast)
  cases tree with
  | array inner size' =>
    rw [name] at h
    exact ⟨inner, (array_name_injective h).1⟩
  | function result params variadic => cases variadic <;> simp [ending] at hending
  | void | num | chr | str => simp [ending] at hending

namespace Program

/-- A name that denotes a type without any suffix: the name of a type that there is, or that of a
primitive type. -/
def KnowsName (program : Program) (name : String) : Prop :=
  (∃ ref, program.typeName ref = .ok name) ∨ name ∈ ["void", "num", "chr", "str"]

/-- A known name with a bracket in it is that of a type that there is. -/
theorem KnowsName.exists_ref {program : Program} {name : String} (h : program.KnowsName name)
    (hbracket : '[' ∈ name.toList) : ∃ ref, program.typeName ref = .ok name := by
  rcases h with hexists | hprimitive
  · exact hexists
  · fin_cases hprimitive <;> exact absurd hbracket (by decide)

/-- A type is wrapped in arrays of the given sizes, the first one innermost. -/
inductive Wraps (program : Program) (element : TypeRef) : List UInt64 → TypeRef → Prop
  /-- The type itself. -/
  | element : Wraps program element [] element
  /-- One more array around it. -/
  | array {inner ref : TypeRef} {name : String} {sizes : List UInt64} {size : UInt64}
    (wraps : Wraps program element sizes inner)
    (entry : program.types.get? ref = some ⟨name, .array inner size⟩) :
    Wraps program element (sizes ++ [size]) ref

/-- A known name is the canonical name of a type. -/
theorem Interned.exists_tree {program : Program} (h : program.Interned) {name : String}
    (hknows : program.KnowsName name) : ∃ tree : TypeTree, name = tree.name := by
  rcases hknows with ⟨ref, hname⟩ | hprimitive
  · obtain ⟨entry, hentry, rfl⟩ := typeName_eq_ok.1 hname
    obtain ⟨tree, htree, -⟩ := h.rendered ref entry hentry
    exact ⟨tree, htree⟩
  · simp only [List.mem_cons, List.not_mem_nil, or_false] at hprimitive
    rcases hprimitive with rfl | rfl | rfl | rfl
    · exact ⟨.void, by rw [TypeTree.name]⟩
    · exact ⟨.num, by rw [TypeTree.name]⟩
    · exact ⟨.chr, by rw [TypeTree.name]⟩
    · exact ⟨.str, by rw [TypeTree.name]⟩

/-- A type that is named as arrays around a type is such a type. -/
theorem Interned.exists_wraps {program : Program} (h : program.Interned) {tree : TypeTree}
    {sizes : List UInt64} {ref : TypeRef}
    (hname : program.typeName ref = .ok (sizes.foldl TypeName.array tree.name)) :
    ∃ element, program.typeName element = .ok tree.name ∧ program.Wraps element sizes ref := by
  induction sizes using List.reverseRecOn generalizing ref with
  | nil => exact ⟨ref, hname, .element⟩
  | append_singleton sizes size ih =>
    rw [← TypeTree.name_foldl_array, List.foldl_append] at hname
    obtain ⟨shape, hentry, hshape⟩ := h.hasShape_of_typeName hname
    cases shape <;> simp only [List.foldl_cons, List.foldl_nil, HasShape] at hshape
    obtain ⟨rfl, hinner⟩ := hshape
    rw [TypeTree.name_foldl_array] at hinner
    obtain ⟨element, helement, hwraps⟩ := ih hinner
    exact ⟨element, helement, hwraps.array hentry⟩

/-- A type that is named as an array has elements of the type that is named in front. -/
theorem Interned.exists_element {program : Program} (h : program.Interned) {ref : TypeRef}
    {name : String} {size : UInt64}
    (hname : program.typeName ref = .ok (TypeName.array name size)) :
    ∃ element, program.typeName element = .ok name := by
  obtain ⟨tree, htree⟩ := h.exists_tree (.inl ⟨ref, hname⟩)
  obtain ⟨inner, rfl⟩ := TypeTree.exists_of_array_eq_name htree
  have hwrapped : program.typeName ref = .ok ([size].foldl TypeName.array inner.name) := hname
  obtain ⟨element, helement, -⟩ := h.exists_wraps hwrapped
  exact ⟨element, helement⟩

end Program

/-! ## Resolving names -/

namespace Edit

open Program ChainIR.TypeName

variable {program : Program}

/-- An interned name is found at once. -/
theorem baseType?_of_find? {name : String} {ref : TypeRef}
    (hfind : program.typeNames.find? name = some ref) :
    baseType? name program = .ok (some ref, program) := by
  unfold baseType?
  rw [Step.bind_of_ok (Step.get_apply program), hfind]
  rfl

/-- Only a known name is resolved without suffix. -/
theorem knowsName_of_baseType? (h : program.Interned) {name : String} {ref : TypeRef}
    {after : Program} (hrun : baseType? name program = .ok (some ref, after)) :
    program.KnowsName name := by
  unfold baseType? at hrun
  rw [Step.bind_of_ok (Step.get_apply program)] at hrun
  cases hfind : program.typeNames.find? name with
  | some found => exact .inl ⟨found, h.typeName_of_find? hfind⟩
  | none =>
    rw [hfind] at hrun
    dsimp only at hrun
    right
    split at hrun
    · decide
    · decide
    · decide
    · decide
    · exact absurd (Prod.mk.inj (Except.ok.inj hrun)).1 (by simp)

/-- A known name is resolved without suffix. -/
theorem baseType?_of_knowsName (h : program.Interned) {name : String}
    (hknows : program.KnowsName name) :
    ∃ ref after, baseType? name program = .ok (some ref, after) := by
  rcases hknows with ⟨ref, hname⟩ | hprimitive
  · exact ⟨ref, program, baseType?_of_find? (h.find?_of_typeName hname)⟩
  · obtain ⟨answer, after, hrun, -, -, -, hsome⟩ := baseType?_yields h name
    obtain ⟨ref, rfl⟩ := hsome hprimitive
    exact ⟨ref, after, hrun⟩

/-- What is interned is found at once, and nothing is created. -/
theorem typeOfPieces_of_find? {base : List Char} {suffixes : List (List Char)} {ref : TypeRef}
    (hfind : program.typeNames.find? (joined base suffixes) = some ref) :
    typeOfPieces base suffixes program = .ok (.ok (some ref), program) := by
  cases suffixes with
  | nil =>
    rw [joined_nil] at hfind
    rw [typeOfPieces, map_eq_pure_bind, Step.bind_of_ok (baseType?_of_find? hfind)]
    rfl
  | cons suffix inner =>
    rw [typeOfPieces, Step.bind_of_ok (Step.get_apply program), hfind]
    rfl

/-- A suffix that is not interned with what stands in front of it is an array around that. -/
theorem typeOfPieces_of_none {base suffix : List Char} {inner : List (List Char)} {size : UInt64}
    (hfind : program.typeNames.find? (joined base (suffix :: inner)) = none)
    (hsize : suffixSize (joined base (suffix :: inner)) suffix = .ok size) :
    typeOfPieces base (suffix :: inner) program = (do
      match ← typeOfPieces base inner with
      | .ok (some element) => (.ok ∘ some) <$> arrayType element size
      | other => return other : Edit (Except TypeError (Option TypeRef))) program := by
  rewrite [typeOfPieces, Step.bind_of_ok (Step.get_apply program), hfind, hsize]
  rfl

/-- A name that is resolved is a known name with suffixes. -/
theorem exists_suffixed_of_typeOfPieces (h : program.Interned) {base : List Char}
    {suffixes : List (List Char)} {ref : TypeRef} {after : Program}
    (hrun : typeOfPieces base suffixes program = .ok (.ok (some ref), after)) :
    ∃ name sizes, program.KnowsName name ∧ Suffixed name (joined base suffixes) sizes := by
  -- the suffixes come outermost first, so what is left is the name of the element
  induction suffixes generalizing ref after with
  | nil =>
    rw [typeOfPieces, map_eq_pure_bind] at hrun
    obtain ⟨answer, middle, hbase, hlast⟩ := Step.bind_eq_ok.1 hrun
    obtain ⟨hanswer, rfl⟩ := Prod.mk.inj (Except.ok.inj hlast)
    obtain rfl : answer = some ref := Except.ok.inj hanswer
    rw [joined_nil]
    exact ⟨_, [], knowsName_of_baseType? h hbase, .base⟩
  | cons suffix inner ih =>
    cases hfind : program.typeNames.find? (joined base (suffix :: inner)) with
    | some found => exact ⟨_, [], .inl ⟨found, h.typeName_of_find? hfind⟩, .base⟩
    | none =>
      cases hsize : suffixSize (joined base (suffix :: inner)) suffix with
      | error error =>
        have hfails : typeOfPieces base (suffix :: inner) program = .ok (.error error, program) := by
          rw [typeOfPieces, Step.bind_of_ok (Step.get_apply program), hfind, hsize]
          rfl
        exact absurd (hfails.symm.trans hrun) (by simp)
      | ok size =>
        rw [typeOfPieces_of_none hfind hsize] at hrun
        obtain ⟨answer, middle, hinner, hlast⟩ := Step.bind_eq_ok.1 hrun
        split at hlast
        · next element =>
          obtain ⟨name, sizes, hknows, hsuffixed⟩ := ih hinner
          obtain ⟨text, rfl, htext⟩ := suffixSize_eq_ok.1 hsize
          refine ⟨name, sizes ++ [size], hknows, ?_⟩
          -- the name of the array is that of its element with this suffix behind
          have hjoined : joined base ((text ++ [']']) :: inner) =
              joined base inner ++ "[" ++ String.ofList text ++ "]" := by
            refine String.toList_injective ?_
            rw [toList_joined_cons]
            simp
          rw [hjoined]
          exact .suffix hsuffixed htext
        · next hother =>
          obtain ⟨rfl, -⟩ := Prod.mk.inj (Except.ok.inj hlast)
          exact absurd rfl (hother ref)

/-- A known name with suffixes is resolved, whatever stops taking it apart. -/
theorem typeOfPieces_of_suffixed (h : program.Interned) {name : String}
    (hknows : program.KnowsName name) {base : List Char} {suffixes : List (List Char)}
    (hpieces : ∀ piece ∈ base :: suffixes, '[' ∉ piece) {sizes : List UInt64}
    (hsuffixed : Suffixed name (joined base suffixes) sizes) :
    ∃ ref after, typeOfPieces base suffixes program = .ok (.ok (some ref), after) := by
  induction suffixes generalizing sizes with
  | nil =>
    -- without a bracket in it the name is known itself
    have hbase : program.KnowsName (String.ofList base) := by
      rw [joined_nil] at hsuffixed
      have hbracket : '[' ∉ (String.ofList base).toList := by
        rw [String.toList_ofList]
        exact hpieces base (.head _)
      exact (hsuffixed.of_not_mem hbracket).1 ▸ hknows
    obtain ⟨ref, after, hrun⟩ := baseType?_of_knowsName h hbase
    refine ⟨ref, after, ?_⟩
    rw [typeOfPieces, map_eq_pure_bind, Step.bind_of_ok hrun]
    rfl
  | cons suffix inner ih =>
    cases hfind : program.typeNames.find? (joined base (suffix :: inner)) with
    | some ref => exact ⟨ref, program, typeOfPieces_of_find? hfind⟩
    | none =>
      have hsuffix : '[' ∉ suffix := hpieces suffix (.tail _ (.head _))
      rcases hsuffixed.cases_of_joined hsuffix with rfl | ⟨before, text, size, -, rfl, hsize, hinner⟩
      · -- a known name with a bracket is interned
        obtain ⟨ref, hname⟩ := hknows.exists_ref (by rw [toList_joined_cons]; simp)
        exact absurd (hfind.symm.trans (h.find?_of_typeName hname)) (by simp)
      · have hpieces' := pieces_of_cons hpieces
        obtain ⟨element, between, hrun⟩ := ih hpieces' hinner
        obtain ⟨-, hinterned, hname⟩ := (typeOfPieces_yields h hpieces').of_eq_ok hrun
        -- the type in front of the suffix has a name, and that is the name of a tree
        obtain ⟨entry, hentry, hcanonical⟩ := typeName_eq_ok.1 (hname element rfl)
        obtain ⟨tree, htree, -⟩ := hinterned.rendered element entry hentry
        obtain ⟨ref, after, harray, -⟩ := arrayType_yields hinterned size
          (typeName_eq_ok.2 ⟨entry, hentry, htree⟩)
        refine ⟨ref, after, ?_⟩
        rw [typeOfPieces_of_none hfind (suffixSize_eq_ok.2 ⟨text, rfl, hsize⟩),
          Step.bind_of_ok hrun]
        dsimp only
        rw [map_eq_pure_bind, Step.bind_of_ok harray]
        rfl

/-- What denotes a type that is there is resolved to it, and nothing is created. -/
theorem typeOfPieces_of_canonicalOf (h : program.Interned) {base : List Char}
    {suffixes : List (List Char)} (hpieces : ∀ piece ∈ base :: suffixes, '[' ∉ piece)
    {ref : TypeRef} (hname : program.typeName ref = .ok (canonicalOf base suffixes)) :
    typeOfPieces base suffixes program = .ok (.ok (some ref), program) := by
  -- each suffix that is taken off leads from an array that is there to its elements
  induction suffixes generalizing ref with
  | nil =>
    refine typeOfPieces_of_find? ?_
    rw [joined_nil]
    exact h.find?_of_typeName hname
  | cons suffix inner ih =>
    cases hfind : program.typeNames.find? (joined base (suffix :: inner)) with
    | some found =>
      have hrun := typeOfPieces_of_find? hfind
      obtain ⟨-, -, hfound⟩ := (typeOfPieces_yields h hpieces).of_eq_ok hrun
      rw [hrun, h.ref_unique (hfound found rfl) hname]
    | none =>
      rw [canonicalOf] at hname
      cases hsize : suffixSize (joined base (suffix :: inner)) suffix with
      | error error => -- the name would be that of the type itself
        rw [hsize] at hname
        exact absurd (hfind.symm.trans (h.find?_of_typeName hname)) (by simp)
      | ok size =>
        rw [hsize] at hname
        obtain ⟨element, helement⟩ := h.exists_element hname
        have harray : arrayType element size program = .ok (ref, program) := by
          rw [arrayType, Step.bind_of_ok (ask_of_ok helement), intern, h.find?_of_typeName hname]
        rw [typeOfPieces_of_none hfind hsize,
          Step.bind_of_ok (ih (pieces_of_cons hpieces) helement)]
        dsimp only
        rw [map_eq_pure_bind, Step.bind_of_ok harray]
        rfl

end Edit

namespace Program

open ChainIR.TypeName

/-- A name is resolved to a type without creating one exactly if its canonical name is that of the
type. -/
theorem Interned.typeByName_iff_canonical {program : Program} (h : program.Interned)
    {ref : TypeRef} {name : String} :
    Edit.typeByName name program = .ok (.ok (some ref), program) ↔
      program.typeName ref = .ok (canonical name) := by
  constructor
  · intro hrun
    obtain ⟨-, -, hname⟩ := (Edit.typeByName_yields h name).of_eq_ok hrun
    exact hname ref rfl
  · intro hname
    obtain ⟨base, suffixes, hrun, hcanonical, -, hpieces⟩ := exists_pieces name
    rw [hrun]
    exact Edit.typeOfPieces_of_canonicalOf h hpieces (hcanonical ▸ hname)

/-- The name of a type is found at once, and nothing is created. -/
theorem Interned.typeByName_typeName {program : Program} (h : program.Interned) {ref : TypeRef}
    {name : String} (hname : program.typeName ref = .ok name) :
    Edit.typeByName name program = .ok (.ok (some ref), program) := by
  obtain ⟨base, suffixes, hrun, -, rfl, -⟩ := exists_pieces name
  rw [hrun]
  exact Edit.typeOfPieces_of_find? (h.find?_of_typeName hname)

/-- A name is resolved exactly if it is a known name with suffixes, and then to the arrays that
they say. -/
theorem Interned.exists_typeByName {program : Program} (h : program.Interned) (name : String) :
    ∃ answer after, Edit.typeByName name program = .ok (answer, after) ∧
      ((∃ ref, answer = .ok (some ref)) ↔
        ∃ base sizes, program.KnowsName base ∧ Suffixed base name sizes) ∧
      ∀ ref base sizes, answer = .ok (some ref) → program.KnowsName base →
        Suffixed base name sizes → after.typeName ref = .ok (sizes.foldl TypeName.array base) ∧
          ∃ element, after.typeName element = .ok base ∧ after.Wraps element sizes ref := by
  obtain ⟨answer, after, hrun, -, hinterned, hname⟩ := Edit.typeByName_yields h name
  obtain ⟨base, suffixes, hpieces, -, hjoined, hbrackets⟩ := exists_pieces name
  refine ⟨answer, after, hrun, ⟨?_, ?_⟩, ?_⟩
  · rintro ⟨ref, rfl⟩
    rw [hpieces] at hrun
    rw [← hjoined]
    exact Edit.exists_suffixed_of_typeOfPieces h hrun
  · rintro ⟨known, sizes, hknows, hsuffixed⟩
    rw [← hjoined] at hsuffixed
    obtain ⟨ref, other, hother⟩ := Edit.typeOfPieces_of_suffixed h hknows hbrackets hsuffixed
    rw [← hpieces] at hother
    exact ⟨ref, (Prod.mk.inj (Except.ok.inj (hrun.symm.trans hother))).1⟩
  · intro ref known sizes hanswer hknows hsuffixed
    -- what the name denotes does not depend on the way it is taken apart
    obtain ⟨tree, rfl⟩ := h.exists_tree hknows
    have htype := hname ref hanswer
    rw [hsuffixed.canonical_eq] at htype
    exact ⟨htype, hinterned.exists_wraps htype⟩

/-- **A name is resolved exactly if it is the name of a known type with array suffixes behind it**,
however the program has come about; the type is one that has been interned or a primitive one. In
whatever way a name is taken to be such a name, the type that comes out is that type wrapped in
arrays of these sizes, the first one innermost, and its name has the sizes in plain decimal. The
name of a type is resolved to it, and nothing is created. -/
theorem Reachable.typeByName_iff {program : Program} (h : program.Reachable) :
    (∀ name, ∃ answer after, Edit.typeByName name program = .ok (answer, after) ∧
      ((∃ ref, answer = .ok (some ref)) ↔
        ∃ base sizes, program.KnowsName base ∧ Suffixed base name sizes) ∧
      ∀ ref base sizes, answer = .ok (some ref) → program.KnowsName base →
        Suffixed base name sizes → after.typeName ref = .ok (sizes.foldl TypeName.array base) ∧
          ∃ element, after.typeName element = .ok base ∧ after.Wraps element sizes ref) ∧
    ∀ ref name, program.typeName ref = .ok name →
      Edit.typeByName name program = .ok (.ok (some ref), program) :=
  have hinterned := h.requested.interned
  ⟨hinterned.exists_typeByName, fun _ _ => hinterned.typeByName_typeName⟩

/-- Sizes with a plus and zeros in front name an array of arrays of which the inner one is there
already. -/
theorem typeByName_padded : ∃ program ref after,
    (Request.getType (.ofName "num[3]")).run initial = .ok ((), program) ∧
    Edit.typeByName "num[+03][007]" program = .ok (.ok (some ref), after) ∧
    after.typeName ref = .ok "num[3][7]" ∧
    (∃ element, after.typeName element = .ok "num" ∧ after.Wraps element [3, 7] ref) ∧
    Edit.typeByName "num[3][7]" after = .ok (.ok (some ref), after) := by
  have hbuilt : Step.leadsTo (Request.getType (.ofName "num[3]")).run initial
      (fun program => program.types.size == 12) = true := by decide +kernel
  obtain ⟨⟨⟩, program, hrun, -⟩ := Step.exists_of_leadsTo hbuilt
  have hreachable : program.Reachable := .request .initial _ hrun
  have hsuffixed : Suffixed "num" "num[+03][007]" [3, 7] :=
    .suffix (.suffix .base (size?_eq_some.1 (by decide +kernel : size? ['+', '0', '3'] = some 3)))
      (size?_eq_some.1 (by decide +kernel : size? ['0', '0', '7'] = some 7))
  have hknows : program.KnowsName "num" := .inr (by decide)
  obtain ⟨answer, after, hname, hiff, harrays⟩ := hreachable.typeByName_iff.1 "num[+03][007]"
  obtain ⟨ref, rfl⟩ := hiff.2 ⟨"num", [3, 7], hknows, hsuffixed⟩
  obtain ⟨htype, hwraps⟩ := harrays ref "num" [3, 7] rfl hknows hsuffixed
  have hafter : after.Reachable := .request hreachable (.getType (.ofName "num[+03][007]"))
    ((Step.drop_eq_ok fun _ => rfl).2 ⟨_, hname⟩)
  exact ⟨program, ref, after, hrun, hname, htype, hwraps,
    hafter.typeByName_iff.2 ref "num[3][7]" htype⟩

end Program

end ChainIR
