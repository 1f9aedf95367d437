/-! # Tables from names to entries

A name table keeps one entry per name, in the order in which the names were first bound.
`find?_insert` says what a look-up finds after a binding. -/

namespace ChainIR

universe u

/-- A finite map from names, in order of first binding. -/
structure NameTable (α : Type u) where
  /-- The bindings, no two of one name. -/
  bindings : List (String × α) := []

namespace NameTable

variable {α : Type u}

/-- The entry bound to a name. -/
def find? (table : NameTable α) (name : String) : Option α := table.bindings.lookup name

/-- Bind a name in a list of bindings: in the place of its old binding, or else at the end. -/
def insertIn (name : String) (entry : α) : List (String × α) → List (String × α)
  | [] => [(name, entry)]
  | binding :: rest =>
    if binding.1 = name then (name, entry) :: rest else binding :: insertIn name entry rest

/-- Bind a name, replacing what was bound to it. -/
def insert (table : NameTable α) (name : String) (entry : α) : NameTable α :=
  ⟨insertIn name entry table.bindings⟩

/-- In the list of bindings, an insertion changes what one name is bound to. -/
theorem lookup_insertIn (name key : String) (entry : α) (bindings : List (String × α)) :
    (insertIn name entry bindings).lookup key =
      if key = name then some entry else bindings.lookup key := by
  induction bindings with
  | nil => grind [insertIn]
  | cons binding rest ih => grind [insertIn]

/-- The bound name finds the new entry and every other name finds what it found before. -/
@[simp] theorem find?_insert (table : NameTable α) (name key : String) (entry : α) :
    (table.insert name entry).find? key = if key = name then some entry else table.find? key :=
  lookup_insertIn name key entry table.bindings

@[simp] theorem find?_empty (key : String) : (⟨[]⟩ : NameTable α).find? key = none := rfl

end NameTable

end ChainIR
