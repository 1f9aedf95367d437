import Mathlib

/-! # The pieces of a text

A line is cut at its spaces and the name of a type at its brackets. The pieces do not hold the
character that the text is cut at, and dropping other characters may come before or after. -/

namespace ChainIR

/-- A piece of a text that is cut at a character does not hold the character. -/
theorem not_mem_of_mem_splitOn {c : Char} {text piece : List Char}
    (h : piece ∈ text.splitOn c) : c ∉ piece := by
  induction text generalizing piece with
  | nil =>
    obtain rfl : piece = [] := by simpa using h
    exact List.not_mem_nil
  | cons first rest ih =>
    rw [List.splitOn_cons_eq_if_modifyHead] at h
    obtain ⟨head, tail, hpieces⟩ := List.exists_cons_of_ne_nil (List.splitOn_ne_nil c rest)
    rw [hpieces] at h ih
    split at h
    · rcases List.mem_cons.1 h with rfl | hmem
      · exact List.not_mem_nil
      · exact ih hmem
    · next hother =>
      rcases List.mem_cons.1 h with rfl | hmem
      · intro hc
        rcases List.mem_cons.1 hc with rfl | hc
        · exact hother (by simp)
        · exact ih (.head _) hc
      · exact ih (.tail _ hmem)

/-- The last of some pieces ends the text that they make up. -/
theorem exists_intercalate_concat (separator : List Char) (pieces : List (List Char))
    (last : List Char) : ∃ front, separator.intercalate (pieces ++ [last]) = front ++ last := by
  induction pieces with
  | nil => exact ⟨[], by simp⟩
  | cons first rest ih =>
    obtain ⟨front, hfront⟩ := ih
    refine ⟨first ++ separator ++ front, ?_⟩
    rw [List.cons_append, List.intercalate_cons_of_ne_nil (by simp), hfront]
    simp only [List.append_assoc]

/-- Dropping characters other than spaces and cutting at spaces may change places. -/
theorem splitOn_filter {keep : Char → Bool} (h : keep ' ' = true) (text : List Char) :
    (text.splitOn ' ').map (List.filter keep) = (text.filter keep).splitOn ' ' := by
  induction text with
  | nil => rfl
  | cons c rest ih =>
    obtain ⟨piece, pieces, hpieces⟩ := List.exists_cons_of_ne_nil (List.splitOn_ne_nil ' ' rest)
    rw [hpieces] at ih
    rw [List.splitOn_cons_eq_if_modifyHead, hpieces, List.filter_cons]
    by_cases hspace : c = ' '
    · subst hspace
      rw [h, if_pos rfl, List.splitOn_cons_eq_if_modifyHead, ← ih]
      rfl
    · by_cases hkeep : keep c = true
      · rw [if_pos hkeep, List.splitOn_cons_eq_if_modifyHead, ← ih]
        simp [hspace, hkeep]
      · rw [if_neg hkeep, ← ih]
        simp [hspace, hkeep]

end ChainIR
