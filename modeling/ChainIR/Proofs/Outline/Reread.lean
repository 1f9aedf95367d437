import Mathlib
import ChainIR.Proofs.Outline.Builtin
import ChainIR.Proofs.Outline.Resolution

/-! # The outline that is read back

A program is written function by function, each at the place of its declaration. So whoever reads
it back knows, in the body of a function, the builtin functions and the functions up to that one,
and no other; the callees of its calls are looked for among them (`Outline.reread`). -/

namespace ChainIR

/-! ## Answers for lists -/

section Lists

variable {α β : Type} {answer? : α → Option β}

/-- The answers of a list are the answer of its head and those of its tail. -/
theorem mapM_cons_eq_bind (item : α) (items : List α) :
    (item :: items).mapM answer? =
      (answer? item).bind fun answer => (items.mapM answer?).map (answer :: ·) := by
  rw [List.mapM_cons]
  cases answer? item <;> cases items.mapM answer? <;> rfl

/-- A list of questions has answers if each of them has. -/
theorem mapM_isSome_iff {items : List α} :
    (items.mapM answer?).isSome ↔ ∀ item ∈ items, (answer? item).isSome := by
  induction items with
  | nil => simp
  | cons item items ih =>
    rw [List.mapM_cons, List.forall_mem_cons, ← ih]
    cases answer? item <;> cases items.mapM answer? <;> simp

/-- The answers of a list of questions. -/
theorem forall₂_of_mapM {items : List α} {answers : List β}
    (h : items.mapM answer? = some answers) :
    List.Forall₂ (fun item answer => answer? item = some answer) items answers := by
  induction items generalizing answers with
  | nil => exact Option.some.inj h ▸ .nil
  | cons item items ih =>
    rw [List.mapM_cons] at h
    obtain ⟨first, hfirst, h⟩ := Option.bind_eq_some_iff.1 h
    obtain ⟨others, hothers, h⟩ := Option.bind_eq_some_iff.1 h
    exact Option.some.inj h ▸ .cons hfirst (ih hothers)

/-- Answers that tell their questions. -/
theorem map_of_mapM {items : List α} {answers : List β} (h : items.mapM answer? = some answers)
    {question : β → α} (hquestion : ∀ item answer, answer? item = some answer →
      question answer = item) : answers.map question = items := by
  rw [← List.forall₂_eq_eq_eq, List.forall₂_map_left_iff]
  exact ((forall₂_of_mapM h).imp fun item answer hanswer =>
    hquestion item answer hanswer).flip

end Lists

/-! ## Callees -/

namespace Block

/-- Find the callees of a block. -/
def resolve (prototypes : List Prototype) (block : Block (Statement String)) :
    Option (Block (Statement Callee)) :=
  (block.statements.mapM (Statement.resolve prototypes)).map (Block.mk block.name)

/-- A block has callees if all of its statements have. -/
theorem resolve_isSome_iff {prototypes : List Prototype} {block : Block (Statement String)} :
    (block.resolve prototypes).isSome ↔
      ∀ statement ∈ block.statements, (statement.resolve prototypes).isSome := by
  rw [resolve, Option.isSome_map, mapM_isSome_iff]

/-- Whatever callees are found in a block, it is written as before. -/
theorem written_of_resolve {prototypes : List Prototype} {block : Block (Statement String)}
    {resolved : Block (Statement Callee)} (h : block.resolve prototypes = some resolved) :
    resolved.map Statement.written = block := by
  obtain ⟨statements, hstatements, rfl⟩ := Option.map_eq_some_iff.1 h
  rw [map, map_of_mapM hstatements fun _ _ => Statement.written_of_resolve]

end Block

namespace Routine

/-- Find the callees of a function; all of its parameters get names. -/
def resolve (prototypes : List Prototype) (routine : Routine (Statement String)) :
    Option (Routine (Statement Callee)) :=
  (routine.blocks.mapM (Block.resolve prototypes)).map
    (Routine.mk routine.prototype routine.named.params)

/-- A function has callees if all of its statements have. -/
theorem resolve_isSome_iff {prototypes : List Prototype} {routine : Routine (Statement String)} :
    (routine.resolve prototypes).isSome ↔ ∀ block ∈ routine.blocks,
      ∀ statement ∈ block.statements, (statement.resolve prototypes).isSome := by
  rw [resolve, Option.isSome_map, mapM_isSome_iff]
  exact forall₂_congr fun _ _ => Block.resolve_isSome_iff

/-- Whatever callees are found in a function, it is written as before, with all names. -/
theorem written_of_resolve {prototypes : List Prototype} {routine : Routine (Statement String)}
    {resolved : Routine (Statement Callee)} (h : routine.resolve prototypes = some resolved) :
    resolved.map Statement.written = routine.named := by
  obtain ⟨blocks, hblocks, rfl⟩ := Option.map_eq_some_iff.1 h
  rw [map, map_of_mapM hblocks fun _ _ => Block.written_of_resolve]
  rfl

/-- Names that are complete stay as they are. -/
theorem completed_completed (index : Nat) (types names : List String) :
    completed index types (completed index types names) = completed index types names := by
  induction types generalizing index names with
  | nil => rfl
  | cons type types ih => simp [completed, ih]

/-- A function with all names is written like the function. -/
theorem lines_named (routine : Routine (Statement String)) : routine.named.lines = routine.lines := by
  rw [lines, lines, headerWords, headerWords, named, named, completed_completed]

variable {σ : Type}

/-- Append statements one by one. -/
def appendAll (name : String) (statements : List σ) (routine : Routine σ) : Routine σ :=
  statements.foldl (fun routine statement => routine.append name statement) routine

/-- Put blocks behind the others. -/
def addBlocks (blocks : List (Block σ)) (routine : Routine σ) : Routine σ :=
  { routine with blocks := routine.blocks ++ blocks }

/-- The labels of added blocks come behind those that are there. -/
@[simp] theorem labels_addBlocks (blocks : List (Block σ)) (routine : Routine σ) :
    (routine.addBlocks blocks).labels = routine.labels ++ blocks.map Block.name := by
  simp [labels, addBlocks]

/-- Other blocks are left alone. -/
theorem map_push_of_not_mem {blocks : List (Block σ)} {name : String}
    (h : name ∉ blocks.map Block.name) (statement : σ) :
    blocks.map (Block.push name statement) = blocks := by
  have hsame : ∀ block ∈ blocks, block.push name statement = id block := fun block hblock =>
    if_neg fun hname => h (List.mem_map.2 ⟨block, hblock, hname⟩)
  rw [List.map_congr_left hsame, List.map_id]

/-- Appending to the last block. -/
theorem append_addBlocks {routine : Routine σ} {name : String} (h : name ∉ routine.labels)
    (statements : List σ) (statement : σ) :
    (routine.addBlocks [⟨name, statements⟩]).append name statement =
      routine.addBlocks [⟨name, statements ++ [statement]⟩] := by
  have hlabel : (routine.addBlocks [⟨name, statements⟩]).withLabel name =
      routine.addBlocks [⟨name, statements⟩] := if_pos (by simp)
  have hpush : Block.push name statement ⟨name, statements⟩ = ⟨name, statements ++ [statement]⟩ :=
    if_pos rfl
  rw [append, hlabel, push, addBlocks, addBlocks, List.map_append, map_push_of_not_mem h,
    List.map_singleton, hpush]

/-- Appending statements to the last block. -/
theorem appendAll_addBlocks {routine : Routine σ} {name : String} (h : name ∉ routine.labels)
    (front statements : List σ) :
    (routine.addBlocks [⟨name, front⟩]).appendAll name statements =
      routine.addBlocks [⟨name, front ++ statements⟩] := by
  induction statements generalizing front with
  | nil => rw [List.append_nil, appendAll, List.foldl_nil]
  | cons statement statements ih =>
    rw [appendAll, List.foldl_cons, append_addBlocks h, ← appendAll, ih, List.append_assoc,
      List.singleton_append]

/-- Statements under a new label are a new block. -/
theorem appendAll_eq_addBlocks {routine : Routine σ} {name : String} (h : name ∉ routine.labels)
    {statements : List σ} (hne : statements ≠ []) :
    routine.appendAll name statements = routine.addBlocks [⟨name, statements⟩] := by
  obtain ⟨statement, statements, rfl⟩ := List.exists_cons_of_ne_nil hne
  have hnew : routine.append name statement =
      (routine.addBlocks [⟨name, []⟩]).append name statement := by
    rw [append, append, withLabel, if_neg h, withLabel, if_pos (by simp)]
    rfl
  rw [appendAll, List.foldl_cons, hnew, append_addBlocks h, ← appendAll, appendAll_addBlocks h]
  rfl

end Routine

namespace Outline

/-- The outline with a name for every parameter. -/
def named {σ : Type} (outline : Outline σ) : Outline σ :=
  { outline with routines := outline.routines.map Routine.named }

/-- The number of functions that are known in the body of a function when it is read back. -/
def visible (index : Nat) : Nat := max Program.builtinCount (index + 1)

/-- Find the callees of functions from number `index` on. -/
def resolveFrom (prototypes : List Prototype) :
    Nat → List (Routine (Statement String)) → Option (List (Routine (Statement Callee)))
  | _, [] => some []
  | index, routine :: routines =>
    (routine.resolve (prototypes.take (visible index))).bind fun resolved =>
      (resolveFrom prototypes (index + 1) routines).map (resolved :: ·)

/-- The outline that a written one is read back as, if its calls have callees then. -/
def reread (outline : Outline (Statement String)) : Option (Outline (Statement Callee)) :=
  (resolveFrom outline.prototypes 0 outline.routines).map (Outline.mk outline.globals)

section Resolve

variable {prototypes : List Prototype}

/-- The functions have callees if each of them has with the functions that are known in it. -/
theorem resolveFrom_isSome_iff {routines : List (Routine (Statement String))} (index : Nat) :
    (resolveFrom prototypes index routines).isSome ↔
      ∀ (offset : Nat) (routine : Routine (Statement String)), routines[offset]? = some routine →
        (routine.resolve (prototypes.take (visible (index + offset)))).isSome := by
  induction routines generalizing index with
  | nil => simp [resolveFrom]
  | cons first routines ih =>
    have hrest : (resolveFrom prototypes index (first :: routines)).isSome ↔
        (first.resolve (prototypes.take (visible index))).isSome ∧
          (resolveFrom prototypes (index + 1) routines).isSome := by
      rw [resolveFrom]
      cases first.resolve (prototypes.take (visible index)) <;> simp
    rw [hrest, ih]
    constructor
    · rintro ⟨hfirst, hothers⟩ offset routine hroutine
      cases offset with
      | zero => exact Option.some.inj hroutine ▸ hfirst
      | succ offset =>
        rw [Nat.add_comm offset, ← Nat.add_assoc]
        exact hothers offset routine hroutine
    · refine fun h => ⟨h 0 first rfl, fun offset routine hroutine => ?_⟩
      rw [Nat.add_assoc, Nat.add_comm 1]
      exact h (offset + 1) routine hroutine

/-- The functions that have been resolved one by one. -/
theorem forall₂_resolveFrom {routines : List (Routine (Statement String))}
    {resolved : List (Routine (Statement Callee))} {index : Nat}
    (h : resolveFrom prototypes index routines = some resolved) :
    List.Forall₂ (fun routine routine' => ∃ known, routine.resolve known = some routine') routines
      resolved := by
  induction routines generalizing index resolved with
  | nil => exact Option.some.inj h ▸ .nil
  | cons routine routines ih =>
    obtain ⟨first, hfirst, h⟩ := Option.bind_eq_some_iff.1 h
    obtain ⟨others, hothers, rfl⟩ := Option.map_eq_some_iff.1 h
    exact .cons ⟨_, hfirst⟩ (ih hothers)

end Resolve

/-- The text that is read back is written again. -/
theorem text_reread {outline : Outline (Statement String)} {resolved : Outline (Statement Callee)}
    (h : outline.reread = some resolved) :
    (resolved.map Statement.written).text = outline.text := by
  obtain ⟨routines, hroutines, rfl⟩ := Option.map_eq_some_iff.1 h
  have hlines : (routines.map (Routine.map Statement.written)).map Routine.lines =
      outline.routines.map Routine.lines := by
    rw [List.map_map, ← List.forall₂_eq_eq_eq, List.forall₂_map_left_iff,
      List.forall₂_map_right_iff]
    refine ((forall₂_resolveFrom hroutines).imp ?_).flip
    rintro routine resolved ⟨known, hresolved⟩
    show (resolved.map Statement.written).lines = routine.lines
    rw [Routine.written_of_resolve hresolved, Routine.lines_named]
  rw [text, lines, map, hlines]
  rfl

end Outline

end ChainIR
