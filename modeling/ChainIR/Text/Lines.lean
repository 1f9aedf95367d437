/-! # Cutting a sequence at a terminator

`terminated` cuts a sequence into the pieces that each end before a terminator; a last piece
without terminator counts if it is not empty. This is how a text is made of lines. -/

namespace ChainIR

universe u

variable {α : Type u} [DecidableEq α]

/-- The pieces of a sequence before each `terminator`, and the last one unless it is empty. -/
def terminated (terminator : α) : List α → List (List α)
  | [] => []
  | c :: rest =>
    if c = terminator then [] :: terminated terminator rest
    else
      match terminated terminator rest with
      | [] => [[c]]
      | piece :: pieces => (c :: piece) :: pieces

@[simp] theorem terminated_nil (terminator : α) : terminated terminator [] = [] := rfl

/-- No piece holds a terminator. -/
theorem not_mem_of_mem_terminated {terminator : α} {items piece : List α}
    (h : piece ∈ terminated terminator items) : terminator ∉ piece := by
  induction items generalizing piece with
  | nil => simp at h
  | cons c rest ih =>
    simp only [terminated] at h
    split at h
    · rcases List.mem_cons.1 h with rfl | h
      · simp
      · exact ih h
    · split at h <;> grind

/-- A piece with its terminator comes off the front. -/
theorem terminated_append_cons {terminator : α} {piece : List α} (h : terminator ∉ piece)
    (rest : List α) :
    terminated terminator (piece ++ terminator :: rest) = piece :: terminated terminator rest := by
  induction piece with
  | nil => simp [terminated]
  | cons c piece ih => grind [terminated]

/-- A piece without terminator at the end is the last one. -/
theorem terminated_of_not_mem {terminator : α} {piece : List α} (h : terminator ∉ piece)
    (nonempty : piece ≠ []) : terminated terminator piece = [piece] := by
  induction piece with
  | nil => exact absurd rfl nonempty
  | cons c piece ih =>
    cases piece with
    | nil => grind [terminated]
    | cons d piece => grind [terminated]

/-- A sequence that is not empty has a piece. -/
theorem terminated_ne_nil (terminator item : α) (items : List α) :
    terminated terminator (item :: items) ≠ [] := by
  rw [terminated]
  split
  · exact List.cons_ne_nil _ _
  · split <;> exact List.cons_ne_nil _ _

/-- A terminator cuts a sequence into the pieces in front of it and those behind it, and perhaps an
empty piece between them. -/
theorem terminated_append (terminator : α) (items rest : List α) :
    terminated terminator (items ++ terminator :: rest) =
        terminated terminator items ++ terminated terminator rest ∨
      terminated terminator (items ++ terminator :: rest) =
        terminated terminator items ++ [] :: terminated terminator rest := by
  induction items with
  | nil => exact .inr (by simp [terminated])
  | cons item items ih =>
    rw [List.cons_append, terminated, terminated]
    by_cases hitem : item = terminator
    · rw [if_pos hitem, if_pos hitem]
      exact ih.imp (congrArg ([] :: ·)) (congrArg ([] :: ·))
    · rw [if_neg hitem, if_neg hitem]
      cases items with
      | nil => exact .inl (by simp [terminated])
      | cons next items =>
        -- what stands in front of the terminator has a piece, which the item goes on
        cases hpieces : terminated terminator (next :: items) with
        | nil => exact absurd hpieces (terminated_ne_nil _ _ _)
        | cons piece pieces =>
          rw [hpieces] at ih
          rcases ih with ih | ih
          · exact .inl (by rw [ih]; rfl)
          · exact .inr (by rw [ih]; rfl)

end ChainIR
