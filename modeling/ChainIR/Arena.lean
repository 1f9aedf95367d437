/-! # Arenas of numbered entries

An arena is a list of entries that only grows at its end. Every entry is known by a typed
reference, which is its position, so references stay valid for as long as the arena lives and
entries may refer to each other in cycles.

* `Arena.alloc` and `Arena.allocWith` append one entry and hand out its reference.
* `Arena.get?` looks a reference up, and `Arena.modify` changes one entry in place.
* `get?_alloc`, `get?_modify`: what every reference finds after each operation. -/

namespace ChainIR

universe u v

/-- A reference to an entry of an arena: the position of the entry, typed by `tag`. -/
structure Ref {κ : Type u} (tag : κ) where
  /-- The position of the entry, counted from zero. -/
  index : Nat

/-- References are equal exactly when their positions are. -/
instance {κ : Type u} {tag : κ} : DecidableEq (Ref tag) := fun left right =>
  if same : left.index = right.index then
    isTrue (by cases left; cases right; simp_all)
  else isFalse fun equal => same (congrArg Ref.index equal)

/-- References of one position are one reference. -/
theorem Ref.eq_of_index {κ : Type u} {tag : κ} {left right : Ref tag}
    (h : left.index = right.index) : left = right := by
  cases left
  cases right
  simp_all

/-- A growing list of entries, referred to by `Ref tag`. -/
structure Arena {κ : Type u} (tag : κ) (α : Type v) where
  /-- The entries in order of allocation. -/
  entries : Array α := #[]

namespace Arena

variable {κ : Type u} {tag : κ} {α : Type v}

/-- The number of entries allocated so far. -/
def size (arena : Arena tag α) : Nat := arena.entries.size

/-- The reference that the next allocated entry will get. -/
def nextRef (arena : Arena tag α) : Ref tag := ⟨arena.size⟩

/-- The entry behind a reference, `none` if no entry has that position. -/
def get? (arena : Arena tag α) (ref : Ref tag) : Option α := arena.entries[ref.index]?

/-- Append an entry and return its reference. -/
def alloc (arena : Arena tag α) (entry : α) : Ref tag × Arena tag α :=
  (arena.nextRef, ⟨arena.entries.push entry⟩)

/-- Append the entry built from the reference that it is going to get. -/
def allocWith (arena : Arena tag α) (build : Ref tag → α) : Ref tag × Arena tag α :=
  arena.alloc (build arena.nextRef)

/-- Change the entry behind a reference; nothing happens if there is none. -/
def modify (arena : Arena tag α) (ref : Ref tag) (change : α → α) : Arena tag α :=
  ⟨arena.entries.modify ref.index change⟩

/-- All references in order of allocation. -/
def refs (arena : Arena tag α) : List (Ref tag) := (List.range arena.size).map Ref.mk

/-- All entries with their references, in order of allocation. -/
def toList (arena : Arena tag α) : List (Ref tag × α) := arena.refs.zip arena.entries.toList

/-! ## What is found behind a reference -/

@[simp] theorem size_alloc (arena : Arena tag α) (entry : α) :
    (arena.alloc entry).2.size = arena.size + 1 := by simp [alloc, size]

@[simp] theorem size_modify (arena : Arena tag α) (ref : Ref tag) (change : α → α) :
    (arena.modify ref change).size = arena.size := by simp [modify, size]

/-- After an allocation the new reference finds the new entry and every other reference finds
what it found before. -/
theorem get?_alloc (arena : Arena tag α) (entry : α) (ref : Ref tag) :
    (arena.alloc entry).2.get? ref =
      if ref = arena.nextRef then some entry else arena.get? ref := by
  obtain ⟨index⟩ := ref
  simp [alloc, get?, nextRef, size, Array.getElem?_push]

@[simp] theorem alloc_fst (arena : Arena tag α) (entry : α) :
    (arena.alloc entry).1 = arena.nextRef := rfl

/-- A new entry is found under the handle that was next. -/
@[simp] theorem get?_alloc_nextRef (arena : Arena tag α) (entry : α) :
    (arena.alloc entry).2.get? arena.nextRef = some entry := by simp [get?_alloc]

/-- The next reference finds nothing yet. -/
theorem get?_nextRef (arena : Arena tag α) : arena.get? arena.nextRef = none := by
  simp [get?, nextRef, size]

/-- What a reference finds is in the arena. -/
theorem lt_size_of_get? {arena : Arena tag α} {ref : Ref tag} {entry : α}
    (h : arena.get? ref = some entry) : ref.index < arena.size := by
  rw [get?, Array.getElem?_eq_some_iff] at h
  exact h.1

/-- Old references find after an allocation what they found before. -/
theorem get?_alloc_of_some {arena : Arena tag α} {ref : Ref tag} {entry : α}
    (h : arena.get? ref = some entry) (other : α) :
    (arena.alloc other).2.get? ref = some entry := by
  rw [get?_alloc, if_neg, h]
  intro equal
  rw [equal, get?_nextRef] at h
  exact nomatch h

/-- What is found after an allocation is new or was there before. -/
theorem get?_alloc_eq_some {arena : Arena tag α} {other : α} {ref : Ref tag} {entry : α}
    (h : (arena.alloc other).2.get? ref = some entry) :
    ref = arena.nextRef ∧ entry = other ∨ arena.get? ref = some entry := by
  rw [get?_alloc] at h
  split at h
  next equal => exact .inl ⟨equal, (Option.some.inj h).symm⟩
  next => exact .inr h

/-- A change is seen through the changed reference and through no other. -/
theorem get?_modify (arena : Arena tag α) (ref other : Ref tag) (change : α → α) :
    (arena.modify ref change).get? other =
      if other = ref then (arena.get? ref).map change else arena.get? other := by
  obtain ⟨index⟩ := ref
  obtain ⟨position⟩ := other
  by_cases h : index = position
  · subst h; simp [modify, get?, Array.getElem?_modify]
  · grind [modify, get?]

/-- What was found before a change is still found, as it was or with the change. -/
theorem get?_modify_of_some {arena : Arena tag α} {other : Ref tag} {entry : α}
    (h : arena.get? other = some entry) (ref : Ref tag) (change : α → α) :
    ∃ later, (arena.modify ref change).get? other = some later ∧
      (later = entry ∨ other = ref ∧ later = change entry) := by
  rw [get?_modify]
  split
  next equal => exact ⟨change entry, by rw [← equal, h, Option.map_some], .inr ⟨equal, rfl⟩⟩
  next => exact ⟨entry, h, .inl rfl⟩

/-- What is found after a change was there before, or it is what was there with the change. -/
theorem get?_modify_eq_some {arena : Arena tag α} {ref other : Ref tag} {change : α → α}
    {entry : α} (h : (arena.modify ref change).get? other = some entry) :
    ∃ old, arena.get? other = some old ∧ (entry = old ∨ other = ref ∧ entry = change old) := by
  rw [get?_modify] at h
  split at h
  next equal =>
    obtain ⟨old, found, changed⟩ := Option.map_eq_some_iff.1 h
    exact ⟨old, equal ▸ found, .inr ⟨equal, changed.symm⟩⟩
  next => exact ⟨entry, h, .inl rfl⟩

/-- A reference finds an entry exactly when its position is below the size. -/
theorem get?_isSome_iff (arena : Arena tag α) (ref : Ref tag) :
    (arena.get? ref).isSome ↔ ref.index < arena.size := by simp [get?, size]

end Arena

end ChainIR
