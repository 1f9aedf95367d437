import Mathlib
import ChainIR.Proofs.Text.Pieces
import ChainIR.Proofs.Types.Tree

/-! # The type that a name denotes

A source may name an array type in more than one way, since a size may have a plus and zeros in
front of it. What a name denotes depends on its text alone: its array suffixes are read from the
last to the first, as long as they are sound, and what is left is the name of the element
(`TypeName.canonical`). The canonical name of a type denotes that type
(`TypeTree.canonical_name`). -/

namespace ChainIR

namespace TypeName

/-- The canonical name of the type that a base with array suffixes denotes, the last suffix
first. -/
def canonicalOf (base : List Char) : List (List Char) → String
  | [] => String.ofList base
  | suffix :: inner =>
    match suffixSize (joined base (suffix :: inner)) suffix with
    | .ok size => array (canonicalOf base inner) size
    | .error _ => joined base (suffix :: inner)

/-- The canonical name of the type that a name denotes, if it denotes one. -/
def canonical (name : String) : String :=
  match name.toList.splitOn '[' with
  | [] => name
  | base :: suffixes => canonicalOf base suffixes.reverse

/-- The size of an array is read back from its name. -/
theorem suffixSize_toDigits (name : String) (size : UInt64) :
    suffixSize name (Nat.toDigits 10 size.toNat ++ [']']) = .ok size := by
  have hdigit : ∀ c ∈ Nat.toDigits 10 size.toNat, c.isDigit :=
    fun c hc => Nat.isDigit_of_mem_toDigits (by decide) (by decide) hc
  have hplus : ∀ rest, Nat.toDigits 10 size.toNat ≠ '+' :: rest := by
    intro rest hrest
    exact absurd (hdigit '+' (by simp [hrest])) (by decide)
  have hsize : size? (Nat.toDigits 10 size.toNat) = some size := by
    have hlt : size.toNat < UInt64.size := size.toNat_lt
    unfold size?
    split
    · next rest hrest => exact absurd hrest (hplus rest)
    · simp [Nat.ofDigitChars_ten_toDigits, hlt, Nat.toDigits_ne_nil, List.all_eq_true.2 hdigit]
  simp [suffixSize, hsize]

/-- The pieces of a name make up the name. -/
theorem joined_of_splitOn {name : String} {base : List Char} {suffixes : List (List Char)}
    (hsplit : name.toList.splitOn '[' = base :: suffixes.reverse) : joined base suffixes = name := by
  rw [joined, ← hsplit, List.intercalate_splitOn, String.ofList_toList]

/-- A name that does not end with a bracket denotes no array. -/
theorem canonicalOf_of_getLast? {name : String} (hlast : name.toList.getLast? ≠ some ']')
    {base : List Char} {suffixes : List (List Char)}
    (hsplit : name.toList.splitOn '[' = base :: suffixes.reverse) :
    canonicalOf base suffixes = name := by
  have hjoined := joined_of_splitOn hsplit
  cases suffixes with
  | nil => simpa [canonicalOf, joined] using hjoined
  | cons suffix inner =>
    -- the last suffix ends the name, so it has no bracket at its end either
    obtain ⟨front, hfront⟩ :=
      exists_intercalate_concat ['['] (base :: inner.reverse) suffix
    have htext : name.toList = front ++ suffix := by
      rw [← hjoined, joined, String.toList_ofList, List.reverse_cons, ← hfront, List.cons_append]
    have hopen : suffix.getLast? ≠ some ']' := by
      intro hclosed
      rw [htext, List.getLast?_append, hclosed] at hlast
      exact hlast rfl
    rw [canonicalOf, hjoined, suffixSize, if_neg hopen]

/-- Only the name itself denotes a type whose canonical name has no bracket. -/
theorem eq_of_canonical {name text : String} (h : canonical name = text)
    (hopen : '[' ∉ text.toList) : name = text := by
  rw [canonical] at h
  cases hsplit : name.toList.splitOn '[' with
  | nil => rwa [hsplit] at h
  | cons base pieces =>
    rw [hsplit] at h
    dsimp only at h
    have hjoined : joined base pieces.reverse = name :=
      joined_of_splitOn (by rw [List.reverse_reverse, hsplit])
    cases hpieces : pieces.reverse with
    | nil =>
      rw [hpieces] at h hjoined
      rw [← hjoined, ← h, canonicalOf, joined, List.reverse_nil, List.intercalate_singleton]
    | cons suffix inner =>
      rw [hpieces] at hjoined
      rw [hpieces, canonicalOf] at h
      split at h
      · -- an array has a bracket in its name
        refine absurd ?_ hopen
        rw [← h, TypeTree.toList_array]
        simp
      · exact hjoined.symm.trans h

end TypeName

namespace TypeTree

/-- The pieces of an array name: those of the element and the last suffix. -/
theorem splitOn_name_array (element : TypeTree) (size : UInt64) :
    (element.array size).name.toList.splitOn '[' =
      element.name.toList.splitOn '[' ++ [Nat.toDigits 10 size.toNat ++ [']']] := by
  rw [name, toList_array, List.splitOn_append_cons_self,
    List.splitOn_eq_singleton (not_mem_suffix _)]

/-- The pieces of the canonical name of a type lead to the name. -/
theorem canonicalOf_name : ∀ (tree : TypeTree) {base : List Char} {suffixes : List (List Char)},
    tree.name.toList.splitOn '[' = base :: suffixes.reverse →
      TypeName.canonicalOf base suffixes = tree.name
  | .array element size, base, suffixes, hsplit => by
    rw [splitOn_name_array] at hsplit
    obtain ⟨piece, inner, hinner⟩ :=
      List.exists_cons_of_ne_nil (List.splitOn_ne_nil '[' element.name.toList)
    rw [hinner, List.cons_append] at hsplit
    obtain ⟨rfl, hreverse⟩ := List.cons.inj hsplit
    obtain rfl : suffixes = (Nat.toDigits 10 size.toNat ++ [']']) :: inner.reverse := by
      rw [← List.reverse_reverse suffixes, ← hreverse, List.reverse_append]
      rfl
    rw [TypeName.canonicalOf, TypeName.suffixSize_toDigits,
      canonicalOf_name element (by rw [List.reverse_reverse, hinner]), name]
  | .void, _, _, hsplit | .num, _, _, hsplit | .chr, _, _, hsplit | .str, _, _, hsplit => by
    refine TypeName.canonicalOf_of_getLast? ?_ hsplit
    rw [getLast?_name]
    decide
  | .function _ _ variadic, _, _, hsplit => by
    refine TypeName.canonicalOf_of_getLast? ?_ hsplit
    rw [getLast?_name, ending]
    cases variadic <;> decide

/-- **Canonical names are canonical**: the canonical name of a type denotes the type. -/
theorem canonical_name (tree : TypeTree) : TypeName.canonical tree.name = tree.name := by
  rw [TypeName.canonical]
  cases hsplit : tree.name.toList.splitOn '[' with
  | nil => rfl
  | cons base suffixes =>
    exact canonicalOf_name tree (by rw [hsplit, List.reverse_reverse])

end TypeTree

/-- A plus and zeros in front of a size do not count. -/
example : TypeName.canonical "num[+02][3]" = "num[2][3]" := by decide +kernel

end ChainIR
