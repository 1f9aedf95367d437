import Mathlib
import ChainIR.Proofs.Outline.Basic

/-! # The overload that a call means

A call means the first overload that takes exactly its arguments, or else the first variadic one
whose fixed parameters they start with. Functions that are declared later change the meaning of a
call only if one of them takes exactly its arguments and the call meant a variadic one before
(`resolveIn_take`). -/

namespace ChainIR

variable {prototypes : List Prototype} {name : String} {arguments : List String}
  {function : FunctionRef}

/-- A call means an overload of its name that takes its arguments. -/
theorem resolveIn_eq_some (h : resolveIn prototypes name arguments = some function) :
    ∃ prototype, prototypes[function.index]? = some prototype ∧
      (prototype.takesExactly name arguments ∨
        prototype.takesVariadically name arguments ∧
          prototypes.findIdx? (Prototype.takesExactly name arguments) = none) := by
  rw [resolveIn] at h
  obtain ⟨index, hindex, rfl⟩ := Option.map_eq_some_iff.1 h
  cases hexact : prototypes.findIdx? (Prototype.takesExactly name arguments) with
  | some found =>
    obtain rfl : found = index := by simpa [hexact] using hindex
    obtain ⟨hlt, htakes, -⟩ := List.findIdx?_eq_some_iff_getElem.1 hexact
    exact ⟨_, List.getElem?_eq_getElem hlt, .inl htakes⟩
  | none =>
    rw [hexact, Option.none_or] at hindex
    obtain ⟨hlt, htakes, -⟩ := List.findIdx?_eq_some_iff_getElem.1 hindex
    exact ⟨_, List.getElem?_eq_getElem hlt, .inr ⟨htakes, rfl⟩⟩

/-- A function that takes the arguments of a call of a name has that name. -/
theorem Prototype.name_of_takes {prototype : Prototype}
    (h : prototype.takesExactly name arguments ∨ prototype.takesVariadically name arguments) :
    prototype.name = name := by
  rcases h with h | h
  · simp only [takesExactly, Bool.and_eq_true, beq_iff_eq] at h
    exact h.1
  · simp only [takesVariadically, Bool.and_eq_true, beq_iff_eq] at h
    exact h.1

/-- A call means an overload of its name. -/
theorem exists_of_resolveIn (h : resolveIn prototypes name arguments = some function) :
    ∃ prototype, prototypes[function.index]? = some prototype ∧ prototype.name = name := by
  obtain ⟨prototype, hprototype, htakes⟩ := resolveIn_eq_some h
  exact ⟨prototype, hprototype, Prototype.name_of_takes (htakes.imp_right And.left)⟩

/-- **Resolution among the first functions**: a call that means a function among the first ones
means it among more of them as well, unless it meant a variadic one and a later function takes
exactly its arguments. -/
theorem resolveIn_take {count more : Nat} (hle : count ≤ more)
    (h : resolveIn (prototypes.take count) name arguments = some function) :
    resolveIn (prototypes.take more) name arguments = some function ∨
      ∃ exact variadic : Prototype, ∃ other : FunctionRef,
        resolveIn (prototypes.take more) name arguments = some other ∧ count ≤ other.index ∧
          prototypes[other.index]? = some exact ∧ exact.takesExactly name arguments ∧
          prototypes[function.index]? = some variadic ∧
          variadic.takesVariadically name arguments := by
  have hsplit : prototypes.take more =
      prototypes.take count ++ (prototypes.take more).drop count := by
    conv_lhs => rw [← List.take_append_drop count (prototypes.take more), List.take_take,
      Nat.min_eq_left hle]
  rw [resolveIn] at h
  obtain ⟨index, hindex, rfl⟩ := Option.map_eq_some_iff.1 h
  cases hexact : (prototypes.take count).findIdx? (Prototype.takesExactly name arguments) with
  | some found =>
    obtain rfl : found = index := by simpa [hexact] using hindex
    left
    rw [resolveIn, hsplit, List.findIdx?_append, hexact]
    rfl
  | none => -- only a variadic overload was found
    rw [hexact, Option.none_or] at hindex
    cases hlater : (prototypes.take more).findIdx? (Prototype.takesExactly name arguments) with
    | none =>
      left
      rw [resolveIn, hlater, hsplit, List.findIdx?_append, hindex]
      rfl
    | some found =>
      obtain ⟨hlt, htakes, -⟩ := List.findIdx?_eq_some_iff_getElem.1 hlater
      obtain ⟨hlt', htakes', -⟩ := List.findIdx?_eq_some_iff_getElem.1 hindex
      rw [List.getElem_take] at htakes htakes'
      rw [List.length_take] at hlt hlt'
      have hlt : found < prototypes.length := by omega
      have hlt' : index < prototypes.length := by omega
      refine .inr ⟨_, _, ⟨found⟩, ?_, ?_, List.getElem?_eq_getElem hlt, htakes,
        List.getElem?_eq_getElem hlt', htakes'⟩
      · rw [resolveIn, hlater]
        rfl
      · -- an exact overload among the first functions would have been found there
        refine Nat.le_of_not_lt fun (hfound : found < count) => ?_
        have hmem : prototypes[found] ∈ prototypes.take count :=
          List.mem_take_iff_getElem.2 ⟨found, Nat.lt_min.2 ⟨hfound, hlt⟩, rfl⟩
        exact absurd htakes (by simp [List.findIdx?_eq_none_iff.1 hexact _ hmem])

/-! ## Written again -/

/-- Whatever callee is found for a producer, it is written as before. -/
theorem Producer.written_of_resolve {producer : Producer String}
    {resolved : Producer Callee} (h : producer.resolve prototypes = some resolved) :
    resolved.map Callee.name = producer := by
  cases producer with
  | call name arguments =>
    obtain ⟨function, -, rfl⟩ := Option.map_eq_some_iff.1 h
    rfl
  | alloc type => exact Option.some.inj h ▸ rfl
  | load pointer => exact Option.some.inj h ▸ rfl

/-- Whatever callee is found for a statement, it is written as before. -/
theorem Statement.written_of_resolve {statement : Statement String}
    {resolved : Statement Callee} (h : statement.resolve prototypes = some resolved) :
    resolved.written = statement := by
  cases statement with
  | produce producer =>
    obtain ⟨found, hfound, rfl⟩ := Option.map_eq_some_iff.1 h
    exact congrArg produce (Producer.written_of_resolve hfound)
  | assign name producer =>
    obtain ⟨found, hfound, rfl⟩ := Option.map_eq_some_iff.1 h
    exact congrArg (assign name) (Producer.written_of_resolve hfound)
  | _ => exact Option.some.inj h ▸ rfl

end ChainIR
