import Mathlib
import ChainIR.Proofs.Token.Kinds

/-! # Outlines that can be read back

What is written comes back word by word if no name falls apart or is taken for something else:
names of functions and parameters are plain words, other names have no blanks, and all types are
primitive ones and arrays of them (`Outline.Spelled`). Jump targets are labels, but stand without
a mark, so what may be a target is a parameter here. -/

namespace ChainIR

universe u

/-- The names of plain types. -/
def IsTypeName (name : String) : Prop := ∃ tree : TypeTree, tree.IsPlain ∧ tree.name = name

namespace IsTypeName

variable {name : String}

/-- The name of a type is a plain word. -/
theorem plain (h : IsTypeName name) : Plain name := by
  obtain ⟨tree, htree, rfl⟩ := h
  exact htree.plain_name

/-- The name of a type is not the mark of variadic functions. -/
theorem ne_question (h : IsTypeName name) : name ≠ "?" := by
  obtain ⟨tree, htree, rfl⟩ := h
  exact htree.name_ne_question

end IsTypeName

/-- The type of a literal is plain. -/
theorem Literal.isTypeName (literal : Literal) : IsTypeName literal.typeName := by
  cases literal with
  | num value => exact ⟨.num, .num, by rw [TypeTree.name]; rfl⟩
  | str text => exact ⟨.str, .str, by rw [TypeTree.name]; rfl⟩

/-! ## Spelled outlines -/

/-- An operand that can be read back. -/
def Operand.Spelled : Operand → Prop
  | .register name type => Unbroken name ∧ IsTypeName type
  | .global name _ => Unbroken name
  | .constant _ => True

/-- An instruction with a result that can be read back, except for its callee. -/
def Producer.Spelled {κ : Type u} : Producer κ → Prop
  | .call _ arguments => ∀ operand ∈ arguments, operand.Spelled
  | .alloc type => IsTypeName type
  | .load pointer => pointer.Spelled

/-- A statement that can be read back, except for its callee. -/
def Statement.Spelled {κ : Type u} (target : String → Prop) : Statement κ → Prop
  | .produce producer => producer.Spelled
  | .assign name producer => Unbroken name ∧ producer.Spelled
  | .set name operand => Unbroken name ∧ operand.Spelled
  | .ret operand => ∀ value ∈ operand, value.Spelled
  | .store pointer operand => pointer.Spelled ∧ operand.Spelled
  | .jump name => target name
  | .branch condition whenTrue whenFalse =>
    condition.Spelled ∧ target whenTrue ∧ target whenFalse

/-- A prototype that can be read back. -/
structure Prototype.Spelled (prototype : Prototype) : Prop where
  /-- The name. -/
  name : Plain prototype.name
  /-- The type of the result. -/
  result : IsTypeName prototype.result
  /-- The types of the parameters. -/
  params : ∀ type ∈ prototype.params, IsTypeName type

/-- A block that can be read back. -/
structure Block.Spelled {κ : Type u} (target : String → Prop) (block : Block (Statement κ)) :
    Prop where
  /-- The name of the label. -/
  name : Unbroken block.name
  /-- The statements. -/
  statements : ∀ statement ∈ block.statements, statement.Spelled target

/-- A function that can be read back. -/
structure Routine.Spelled {κ : Type u} (target : String → Prop)
    (routine : Routine (Statement κ)) : Prop where
  /-- The name and the types. -/
  prototype : routine.prototype.Spelled
  /-- The names of the parameters. -/
  params : ∀ name ∈ routine.params, Plain name
  /-- The blocks. -/
  blocks : ∀ block ∈ routine.blocks, block.Spelled target

/-- An outline that can be read back. -/
structure Outline.Spelled {κ : Type u} (target : String → Prop)
    (outline : Outline (Statement κ)) : Prop where
  /-- The names of the globals. -/
  globals : ∀ binding ∈ outline.globals, Unbroken binding.1
  /-- The functions. -/
  routines : ∀ routine ∈ outline.routines, routine.Spelled target

/-! ## Words that are valid -/

namespace Literal

/-- The words of a literal can be written. -/
theorem valid_words (literal : Literal) : ∀ word ∈ literal.words, word.Valid := by
  have hword : literal.word.Valid := by
    cases literal with
    | num value => exact Word.valid_bare value.plain_text
    | str text => trivial
  rw [words]
  simp only [List.forall_mem_cons]
  exact ⟨Word.valid_bare (by decide), Word.valid_bare literal.isTypeName.plain, hword,
    fun _ h => absurd h List.not_mem_nil⟩

end Literal

namespace Operand

/-- The words of an operand can be written if its names are spelled well. -/
theorem Spelled.valid {operand : Operand} (h : operand.Spelled) :
    ∀ word ∈ operand.words, word.Valid := by
  cases operand with
  | register name type =>
    simp only [words, List.forall_mem_cons]
    exact ⟨Word.valid_marked h.1 (.inl rfl), Word.valid_bare h.2.plain,
      fun _ h => absurd h List.not_mem_nil⟩
  | global name type =>
    simp only [words, List.forall_mem_cons]
    exact ⟨Word.valid_marked h (.inr (.inr rfl)), fun _ h => absurd h List.not_mem_nil⟩
  | constant literal => exact literal.valid_words

end Operand

namespace Producer

/-- So can those of an instruction with a result, with a plain name for the callee. -/
theorem Spelled.valid {producer : Producer String} (h : producer.Spelled)
    (hcallee : ∀ call ∈ producer.call?, Plain call.1) :
    ∀ word ∈ producer.words, word.Valid := by
  cases producer with
  | call callee arguments =>
    refine List.forall_mem_append.2 ⟨?_, fun word hmem => ?_⟩
    · simp only [List.forall_mem_cons]
      exact ⟨Word.valid_bare (by decide), Word.valid_bare (hcallee _ rfl),
        fun _ h => absurd h List.not_mem_nil⟩
    · obtain ⟨words, hwords, hword⟩ := List.mem_flatten.1 hmem
      obtain ⟨operand, hoperand, rfl⟩ := List.mem_map.1 hwords
      exact (h operand hoperand).valid word hword
  | alloc type =>
    simp only [words, List.forall_mem_cons]
    exact ⟨Word.valid_bare (by decide), Word.valid_bare (IsTypeName.plain h),
      fun _ h => absurd h List.not_mem_nil⟩
  | load pointer =>
    exact List.forall_mem_cons.2 ⟨Word.valid_bare (by decide), Operand.Spelled.valid h⟩

end Producer

namespace Statement

/-- So can those of every statement, with plain names for the targets of jumps. -/
theorem Spelled.valid {target : String → Prop} (htarget : ∀ name, target name → Plain name)
    {statement : Statement String} (h : statement.Spelled target)
    (hcallee : ∀ call ∈ statement.call?, Plain call.1) :
    ∀ word ∈ statement.words, word.Valid := by
  cases statement with
  | produce producer => exact Producer.Spelled.valid h hcallee
  | assign name producer =>
    exact List.forall_mem_cons.2 ⟨Word.valid_marked h.1 (.inl rfl), h.2.valid hcallee⟩
  | set name operand =>
    exact List.forall_mem_cons.2 ⟨Word.valid_marked h.1 (.inl rfl), h.2.valid⟩
  | ret operand =>
    cases operand with
    | none => exact List.forall_mem_singleton.2 (Word.valid_bare (by decide))
    | some operand =>
      exact List.forall_mem_cons.2 ⟨Word.valid_bare (by decide), (h operand rfl).valid⟩
  | store pointer operand =>
    exact List.forall_mem_cons.2 ⟨Word.valid_bare (by decide),
      List.forall_mem_append.2 ⟨h.1.valid, h.2.valid⟩⟩
  | jump name =>
    simp only [words, List.forall_mem_cons]
    exact ⟨Word.valid_bare (by decide), Word.valid_bare (htarget name h),
      fun _ h => absurd h List.not_mem_nil⟩
  | branch condition whenTrue whenFalse =>
    refine List.forall_mem_cons.2 ⟨Word.valid_bare (by decide),
      List.forall_mem_append.2 ⟨h.1.valid, ?_⟩⟩
    simp only [List.forall_mem_cons]
    exact ⟨Word.valid_bare (htarget _ h.2.1), Word.valid_bare (htarget _ h.2.2),
      fun _ h => absurd h List.not_mem_nil⟩

/-- A statement has a first word. -/
theorem words_ne_nil (statement : Statement String) : statement.words ≠ [] := by
  cases statement with
  | produce producer => cases producer <;> exact List.cons_ne_nil _ _
  | ret operand => cases operand <;> exact List.cons_ne_nil _ _
  | _ => exact List.cons_ne_nil _ _

end Statement

/-! ## Lines that are valid -/

/-- A line whose words are read as they are written. -/
structure TextLine.Valid (line : TextLine) : Prop where
  /-- There is something on the line. -/
  words_ne_nil : line.words ≠ []
  /-- Every word is valid. -/
  words : ∀ word ∈ line.words, word.Valid

namespace Routine

/-- The name of a parameter without name is a plain word. -/
theorem plain_missing (index : Nat) : Plain ("v" ++ toString index) := by
  refine ⟨fun c hc => ?_, 'v', by simp, by decide⟩
  rw [String.toList_append] at hc
  rcases List.mem_append.1 hc with hc | hc
  · obtain rfl := List.mem_singleton.1 hc
    rfl
  · have hdigits : c ∈ Nat.toDigits 10 index := by simpa using hc
    exact isBlank_of_isDigit (Nat.isDigit_of_mem_toDigits (by decide) (by decide) hdigits)

/-- Completed parameter names are plain words if those that are there are. -/
theorem plain_of_mem_completed {types names : List String} (h : ∀ name ∈ names, Plain name)
    (index : Nat) : ∀ name ∈ completed index types names, Plain name := by
  induction types generalizing names index with
  | nil => exact fun _ hmem => absurd hmem List.not_mem_nil
  | cons type types ih =>
    refine List.forall_mem_cons.2 ⟨?_, ih (fun name hmem => h name (List.mem_of_mem_tail hmem)) _⟩
    cases names with
    | nil => exact plain_missing index
    | cons name names => exact h name (.head _)

/-- The words of parameters can be written. -/
theorem valid_paramWords {types names : List String} (htypes : ∀ type ∈ types, IsTypeName type)
    (hnames : ∀ name ∈ names, Plain name) : ∀ word ∈ paramWords types names, word.Valid := by
  induction types generalizing names with
  | nil => exact fun _ hmem => absurd hmem (by simp [paramWords])
  | cons type types ih =>
    cases names with
    | nil => exact fun _ hmem => absurd hmem (by simp [paramWords])
    | cons name names =>
      obtain ⟨htype, htypes⟩ := List.forall_mem_cons.1 htypes
      obtain ⟨hname, hnames⟩ := List.forall_mem_cons.1 hnames
      exact List.forall_mem_cons.2 ⟨Word.valid_bare htype.plain,
        List.forall_mem_cons.2 ⟨Word.valid_bare hname, ih htypes hnames⟩⟩

variable {target : String → Prop}

/-- The words of a header can be written. -/
theorem Spelled.valid_headerWords {routine : Routine (Statement String)}
    (h : routine.Spelled target) :
    ∀ word ∈ routine.headerWords, word.Valid := by
  have hkeyword : Plain (if routine.blocks.isEmpty then "dec" else "def") := by
    split <;> decide
  rw [headerWords]
  refine List.forall_mem_append.2 ⟨List.forall_mem_append.2 ⟨?_, valid_paramWords
    h.prototype.params (plain_of_mem_completed h.params 0)⟩, ?_⟩
  · simp only [List.forall_mem_cons]
    exact ⟨Word.valid_bare hkeyword, Word.valid_bare h.prototype.result.plain,
      Word.valid_bare h.prototype.name, fun _ h => absurd h List.not_mem_nil⟩
  · split
    · exact List.forall_mem_singleton.2 (Word.valid_bare (by decide))
    · exact fun _ h => absurd h List.not_mem_nil

end Routine

/-- The names of the callees in a function are plain words. -/
def Routine.CalleesPlain (routine : Routine (Statement String)) : Prop :=
  ∀ block ∈ routine.blocks, ∀ statement ∈ block.statements,
    ∀ call ∈ statement.call?, Plain call.1

section Lines

variable {target : String → Prop} (htarget : ∀ name, target name → Plain name)

include htarget

/-- Each line of a block can be written, the line of its label among them. -/
theorem Block.Spelled.valid_lines {block : Block (Statement String)} (h : block.Spelled target)
    (hcallees : ∀ statement ∈ block.statements, ∀ call ∈ statement.call?, Plain call.1)
    (isFirst : Bool) : ∀ line ∈ block.lines isFirst, line.Valid := by
  refine List.forall_mem_append.2 ⟨?_, fun line hline => ?_⟩
  · split
    · exact fun _ hmem => absurd hmem List.not_mem_nil
    · exact List.forall_mem_singleton.2 ⟨List.cons_ne_nil _ _,
        List.forall_mem_singleton.2 (Word.valid_marked h.name (.inr (.inl rfl)))⟩
  · obtain ⟨statement, hstatement, rfl⟩ := List.mem_map.1 hline
    exact ⟨statement.words_ne_nil,
      (h.statements statement hstatement).valid htarget (hcallees statement hstatement)⟩

/-- Each line of a body can be written. -/
theorem Routine.valid_bodyLines {blocks : List (Block (Statement String))}
    (h : ∀ block ∈ blocks, block.Spelled target)
    (hcallees : ∀ block ∈ blocks, ∀ statement ∈ block.statements,
      ∀ call ∈ statement.call?, Plain call.1)
    (isFirst : Bool) : ∀ line ∈ bodyLines isFirst blocks, line.Valid := by
  induction blocks generalizing isFirst with
  | nil => exact fun _ hmem => absurd hmem List.not_mem_nil
  | cons block blocks ih =>
    obtain ⟨hblock, hblocks⟩ := List.forall_mem_cons.1 h
    obtain ⟨hcallee, hcallees⟩ := List.forall_mem_cons.1 hcallees
    exact List.forall_mem_append.2 ⟨hblock.valid_lines htarget hcallee isFirst,
      ih hblocks hcallees false⟩

/-- Each line of a function can be written. -/
theorem Routine.Spelled.valid_lines {routine : Routine (Statement String)} (h : routine.Spelled target)
    (hcallees : routine.CalleesPlain) : ∀ line ∈ routine.lines, line.Valid := by
  refine List.forall_mem_cons.2 ⟨⟨List.cons_ne_nil _ _, h.valid_headerWords⟩, ?_⟩
  split
  · exact fun _ hmem => absurd hmem List.not_mem_nil
  · exact List.forall_mem_append.2 ⟨Routine.valid_bodyLines htarget h.blocks hcallees true,
      List.forall_mem_singleton.2 ⟨List.cons_ne_nil _ _,
        List.forall_mem_singleton.2 (Word.valid_bare (by decide))⟩⟩

/-- The lines of an outline are read as they are written. -/
theorem Outline.Spelled.valid_lines {outline : Outline (Statement String)} (h : outline.Spelled target)
    (hcallees : ∀ routine ∈ outline.routines, routine.CalleesPlain) :
    ∀ line ∈ outline.lines, line.Valid := by
  refine List.forall_mem_append.2 ⟨fun line hline => ?_, fun line hline => ?_⟩
  · obtain ⟨binding, hbinding, rfl⟩ := List.mem_map.1 hline
    refine ⟨List.cons_ne_nil _ _, List.forall_mem_cons.2 ⟨Word.valid_bare (by decide),
      List.forall_mem_cons.2 ⟨?_, binding.2.valid_words⟩⟩⟩
    exact Word.valid_marked (h.globals binding hbinding) (.inr (.inr rfl))
  · obtain ⟨lines, hlines, hmem⟩ := List.mem_flatten.1 hline
    obtain ⟨routine, hroutine, rfl⟩ := List.mem_map.1 hlines
    exact (h.routines routine hroutine).valid_lines htarget (hcallees routine hroutine) line hmem

end Lines

end ChainIR
