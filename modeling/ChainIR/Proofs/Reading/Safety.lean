import Mathlib
import ChainIR.Proofs.Reading.Invariant
import ChainIR.Proofs.Token.Slices

/-! # Reading never goes wrong

Whatever bytes are read, a program comes out that can be written, or the source is rejected with
an error that tells of the source (`Reading.ofInput_safe`). There is no fault on the way, and
nothing is cut where it cannot be. -/

namespace ChainIR

/-- The texts of the types of arguments, none of which is the mark of an argument without type,
however the text is taken apart. -/
def ArgumentsTyped (text : String) : Prop :=
  (∃ types : List TypeTree, text = ", ".intercalate (types.map TypeTree.name)) ∧
    ∀ pieces : List String, (∀ piece ∈ pieces, piece = "?" ∨ ∃ tree : TypeTree, tree.name = piece) →
      ", ".intercalate pieces = text → "?" ∉ pieces

/-- No type is called like the mark of an argument without type. -/
theorem TypeTree.name_ne_mark (tree : TypeTree) : tree.name ≠ "?" := by
  intro hname
  have hending := getLast?_name tree
  rw [hname] at hending
  cases tree with
  | function result params variadic =>
    have hbracket : '(' ∈ (function result params variadic).name.toList := by
      rw [name, toList_function]
      simp
    rw [hname] at hbracket
    exact absurd hbracket (by decide)
  | void | num | chr | str | array element size => exact absurd hending (by simp [ending])

/-- Types that are joined can be told apart again. -/
theorem argumentsTyped_intercalate (types : List TypeTree) :
    ArgumentsTyped (", ".intercalate (types.map TypeTree.name)) := by
  refine ⟨⟨types, rfl⟩, fun pieces hpieces hjoined hmark => ?_⟩
  have hnested : ∀ piece ∈ pieces, TypeTree.Nested piece.toList ∧ piece.toList ≠ [] := by
    intro piece hmem
    rcases hpieces piece hmem with rfl | ⟨tree, rfl⟩
    · exact ⟨.flat (by decide) (by decide) (by decide), by decide⟩
    · exact ⟨tree.nested_name, tree.toList_name_ne_nil⟩
  have hlists : pieces.map String.toList = (types.map TypeTree.name).map String.toList := by
    refine TypeTree.intercalate_injective ?_ ?_ ?_
    · simpa using hnested
    · intro piece hmem
      rw [List.map_map] at hmem
      obtain ⟨tree, -, rfl⟩ := List.mem_map.1 hmem
      exact ⟨tree.nested_name, tree.toList_name_ne_nil⟩
    · simpa using congrArg String.toList hjoined
  have hsame : pieces = types.map TypeTree.name :=
    List.map_injective_iff.2 (fun _ _ => String.toList_injective) hlists
  obtain ⟨tree, -, hname⟩ := List.mem_map.1 (hsame ▸ hmark)
  exact tree.name_ne_mark hname

namespace ReadError

/-- What an error never says of a source: that appending has failed, that the end of the source
stands where something else was expected, or that an argument has no type. -/
structure Sensible (error : ReadError) : Prop where
  /-- Appending does not fail. -/
  build : ∀ cause, error ≠ .build cause
  /-- The end of the source is no token. -/
  token : ∀ token expected, error = .unexpectedToken token expected → token.isEof = false
  /-- All arguments have types. -/
  arguments : ∀ name arguments line, error = .unresolvedCallee name arguments line →
    ArgumentsTyped arguments

/-- An error that a source can deserve says nothing else. -/
theorem Proper.sensible {error : ReadError} (h : error.Proper) : error.Sensible where
  build cause hequal := by
    rw [hequal] at h
    exact h
  token token expected hequal := by
    rw [hequal] at h
    exact beq_eq_false_iff_ne.2 h
  arguments name arguments line hequal := by
    rw [hequal] at h
    obtain ⟨types, rfl⟩ := h
    exact argumentsTyped_intercalate types

end ReadError

namespace Reading

/-- **Reading is safe.** Whatever bytes are read, the result is a program that can be written or an
error that tells of the source, and no token, no type name and no list of arguments is cut where it
cannot be. -/
theorem ofInput_safe (bytes : List UInt8) :
    (match (ofInput (.ok bytes)).result with
      | .ok program => ∃ text, program.text = .ok text
      | .error (.rejected error) => error.Sensible
      | .error (.fault _) => False) ∧
    (∀ characters, .text characters ∈ Source.ofBytes bytes → ∀ number,
      Token.ofLineSliced number characters = some (Token.ofLine number characters)) ∧
    (∀ base suffix inner, let name := (TypeName.joined base (suffix :: inner)).toList
      let element := (TypeName.joined base inner).toList
      slice? name 0 (byteLength element) = some element ∧
        slice? name (byteLength element + 1) (byteLength name) = some suffix) ∧
    ∀ (signature : Signature) (arguments : List TypeRef),
      signature.takesVariadicallySliced arguments =
        some (signature.takesVariadically arguments) := by
  refine ⟨?_, fun characters _ number => Token.ofLineSliced_eq number characters,
    TypeName.slice?_joined, Signature.takesVariadicallySliced_eq⟩
  -- the invariant of the reader gives the display of a program and the shape of an error
  have hresult := result_ofLines Reader.sound_initial (Source.ofBytes bytes)
  have hread : ofInput (.ok bytes) = ofLines {} (Source.ofBytes bytes) := rfl
  rw [hread]
  cases hresult' : (ofLines {} (Source.ofBytes bytes)).result with
  | ok program =>
    rw [hresult'] at hresult
    obtain ⟨outline, hshown, -⟩ := hresult
    exact ⟨_, hshown.text_eq⟩
  | error failure =>
    rw [hresult'] at hresult
    cases failure with
    | rejected error => exact hresult.sensible
    | fault fault => exact hresult

end Reading

end ChainIR
