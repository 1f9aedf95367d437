import Mathlib
import ChainIR.Proofs.Outline.Depiction
import ChainIR.Proofs.Reading.Arenas
import ChainIR.Proofs.Types.Denotation

/-! # What is read through references

Names, types and words are read by following references from entry to entry. A program that extends
another one (`Program.Extends`) keeps in its entries all that is followed on the way, so it reads
alike through every reference that there was (`Program.Extends.readsAlike`). Nesting is followed
only as deep as there are instructions, and a program that extends another one has no fewer of
them. -/

namespace ChainIR

namespace Program

/-- Whatever is read of one program through its references is read of the other one too. -/
structure ReadsAlike (program after : Program) : Prop where
  /-- Types have the same names. -/
  typeName : ∀ ref name, program.typeName ref = .ok name → after.typeName ref = .ok name
  /-- Types take and return the same. -/
  signature : ∀ ref signature?, program.signature? ref = .ok signature? →
    after.signature? ref = .ok signature?
  /-- Types are built in the same way, down to the primitive ones. -/
  denotes : ∀ ref tree, program.Denotes ref tree → after.Denotes ref tree
  /-- Values have the same types. -/
  valueType : ∀ ref type?, program.valueType ref = .ok type? → after.valueType ref = .ok type?
  /-- The results of instructions have the same types. -/
  resultType : ∀ ref type?, program.resultType ref = .ok type? → after.resultType ref = .ok type?
  /-- Values are written with the same words. -/
  valueWords : ∀ ref words, program.valueWords ref = .ok words → after.valueWords ref = .ok words
  /-- Instructions are written with the same words. -/
  instructionWords : ∀ ref words, program.instructionWords ref = .ok words →
    after.instructionWords ref = .ok words

namespace Extends

variable {program after : Program} (h : program.Extends after)

include h

/-! ## Types -/

/-- A type takes and returns what it did, also if that is nothing. -/
theorem signature?_eq {ref : TypeRef} {signature? : Option Signature}
    (hsignature : program.signature? ref = .ok signature?) :
    after.signature? ref = .ok signature? := by
  obtain ⟨entry, hentry, hshape⟩ := query_bind_eq_ok.1 hsignature
  have hentry' : after.type ref = .ok entry := found_eq_ok.2 (h.types ref entry (found_eq_ok.1 hentry))
  rw [Program.signature?, hentry']
  exact hshape

/-- A type denotes the tree that it did. -/
theorem denotes {ref : TypeRef} {tree : TypeTree} (hdenotes : program.Denotes ref tree) :
    after.Denotes ref tree := by
  induction tree using TypeTree.induct generalizing ref with
  | void | num | chr | str =>
    cases hdenotes with
    | _ hentry =>
      constructor
      exact h.types _ _ hentry
  | array element size ih =>
    cases hdenotes with
    | array hentry inner => exact .array (h.types _ _ hentry) (ih inner)
  | function result params variadic ihResult ihParams =>
    cases hdenotes with
    | function hentry inner inners =>
      refine .function (h.types _ _ hentry) (ihResult inner) (forall₂_of_mem_right inners ?_)
      exact fun param hmem other hother => ihParams param hmem hother

/-- There are no fewer instructions. -/
theorem operandDepth_le : program.operandDepth ≤ after.operandDepth := by
  rw [operandDepth, operandDepth, Nat.add_le_add_iff_right]
  by_contra hlt
  -- the instruction at the first place that is missing would still be there
  have hmissing : (program.instructions.get? ⟨after.instructions.size⟩).isSome :=
    (Arena.get?_isSome_iff _ _).2 (by simpa using hlt)
  obtain ⟨entry, hentry⟩ := Option.isSome_iff_exists.1 hmissing
  obtain ⟨entry', hentry', -⟩ := h.instructions _ entry hentry
  exact absurd (Arena.lt_size_of_get? hentry') (lt_irrefl _)

/-- A value has the type that it had, if results have the types that they had. -/
theorem valueTypeWith_eq {old new : InstructionRef → Except Fault (Option TypeRef)}
    (hresults : ∀ ref type?, old ref = .ok type? → new ref = .ok type?) {ref : ValueRef}
    {type? : Option TypeRef} (htype : program.valueTypeWith old ref = .ok type?) :
    after.valueTypeWith new ref = .ok type? := by
  obtain ⟨value, hvalue, hrest⟩ := query_bind_eq_ok.1 htype
  have hvalue' : after.value ref = .ok value :=
    found_eq_ok.2 (h.values ref value (found_eq_ok.1 hvalue))
  refine query_bind_eq_ok.2 ⟨value, hvalue', ?_⟩
  cases value with
  | register name type => exact hrest
  | globalPointer name type => exact hrest
  | constant constant => exact hrest
  | result instruction => exact hresults instruction type? hrest
  | global global =>
    obtain ⟨entry, hentry, hlast⟩ := query_bind_eq_ok.1 hrest
    obtain ⟨entry', hentry', -, hinitial⟩ := h.globals global entry (found_eq_ok.1 hentry)
    refine query_bind_eq_ok.2 ⟨entry', found_eq_ok.2 hentry', ?_⟩
    rw [hinitial]
    exact hlast

/-- The result of an instruction has the type that it had, however much deeper is looked. -/
theorem resultTypeWithin_eq {depth more : Nat} (hmore : depth ≤ more) {ref : InstructionRef}
    {type? : Option TypeRef} (htype : program.resultTypeWithin depth ref = .ok type?) :
    after.resultTypeWithin more ref = .ok type? := by
  induction depth generalizing more ref type? with
  | zero => exact absurd htype (by simp [resultTypeWithin])
  | succ depth ih =>
    obtain ⟨more, rfl⟩ := Nat.exists_eq_succ_of_ne_zero (by omega : more ≠ 0)
    have hoperand : ∀ {value : ValueRef} {type? : Option TypeRef},
        program.valueTypeWith (program.resultTypeWithin depth) value = .ok type? →
          after.valueTypeWith (after.resultTypeWithin more) value = .ok type? :=
      h.valueTypeWith_eq fun ref type? => ih (by omega)
    obtain ⟨entry, hentry, hrest⟩ := query_bind_eq_ok.1 htype
    obtain ⟨entry', hentry', hoperation⟩ := h.instructions ref entry (found_eq_ok.1 hentry)
    refine query_bind_eq_ok.2 ⟨entry', found_eq_ok.2 hentry', ?_⟩
    rw [hoperation]
    -- the instructions that pass the type of an operand on are those that go deeper
    split at hrest
    · next callee arguments _ =>
      obtain ⟨function, hfunction, hsignature⟩ := query_bind_eq_ok.1 hrest
      obtain ⟨signature?, hsignature, hlast⟩ := query_bind_eq_ok.1 hsignature
      obtain ⟨function', hfunction', -, hsame⟩ :=
        h.functions callee function (found_eq_ok.1 hfunction)
      refine query_bind_eq_ok.2 ⟨function', found_eq_ok.2 hfunction', ?_⟩
      rw [hsame]
      exact query_bind_eq_ok.2 ⟨signature?, h.signature?_eq hsignature, hlast⟩
    · exact hrest
    · exact hoperand hrest
    · exact hoperand hrest
    · exact hrest
    · exact hoperand hrest
    · exact hrest
    · exact hrest
    · exact hrest

/-! ## Words -/

omit h in
/-- Whoever has answered questions about a list has answered each of them. -/
theorem forall₂_of_mapM_ok {α β : Type} {query : α → Except Fault β} {items : List α}
    {answers : List β} (hanswers : items.mapM query = .ok answers) :
    List.Forall₂ (fun item answer => query item = .ok answer) items answers := by
  induction items generalizing answers with
  | nil => exact Except.ok.inj hanswers ▸ .nil
  | cons item items ih =>
    rw [List.mapM_cons] at hanswers
    obtain ⟨first, hfirst, hrest⟩ := query_bind_eq_ok.1 hanswers
    obtain ⟨others, hothers, hlast⟩ := query_bind_eq_ok.1 hrest
    exact Except.ok.inj hlast ▸ .cons hfirst (ih hothers)

/-- A constant is written with the words that it was. -/
theorem constantWords_eq {constant : Constant} {words : List String}
    (hwords : program.constantWords constant = .ok words) :
    after.constantWords constant = .ok words := by
  obtain ⟨name, hname, hlast⟩ := query_bind_eq_ok.1 hwords
  exact query_bind_eq_ok.2 ⟨name, h.typeName hname, hlast⟩

/-- A value is written with the words that it was, if instructions are. -/
theorem valueWordsWith_eq {old new : InstructionRef → Except Fault (List String)}
    (hinstructions : ∀ ref words, old ref = .ok words → new ref = .ok words) {ref : ValueRef}
    {words : List String} (hwords : program.valueWordsWith old ref = .ok words) :
    after.valueWordsWith new ref = .ok words := by
  obtain ⟨value, hvalue, hrest⟩ := query_bind_eq_ok.1 hwords
  have hvalue' : after.value ref = .ok value :=
    found_eq_ok.2 (h.values ref value (found_eq_ok.1 hvalue))
  refine query_bind_eq_ok.2 ⟨value, hvalue', ?_⟩
  cases value with
  | register name type =>
    obtain ⟨typeName, hname, hlast⟩ := query_bind_eq_ok.1 hrest
    exact query_bind_eq_ok.2 ⟨typeName, h.typeName hname, hlast⟩
  | globalPointer name type => exact hrest
  | constant constant => exact h.constantWords_eq hrest
  | result instruction => exact hinstructions instruction words hrest
  | global global =>
    obtain ⟨entry, hentry, hlast⟩ := query_bind_eq_ok.1 hrest
    obtain ⟨entry', hentry', hname, -⟩ := h.globals global entry (found_eq_ok.1 hentry)
    refine query_bind_eq_ok.2 ⟨entry', found_eq_ok.2 hentry', ?_⟩
    rw [hname]
    exact hlast

/-- An instruction is written with the words that it was, however much deeper is looked. -/
theorem instructionWordsWithin_eq {depth more : Nat} (hmore : depth ≤ more) {ref : InstructionRef}
    {words : List String} (hwords : program.instructionWordsWithin depth ref = .ok words) :
    after.instructionWordsWithin more ref = .ok words := by
  -- the induction is on the fuel, since an operand is an instruction with one step less
  induction depth generalizing more ref words with
  | zero => exact absurd hwords (by simp [instructionWordsWithin])
  | succ depth ih =>
    -- the later program may have more fuel, but has some
    obtain ⟨more, rfl⟩ := Nat.exists_eq_succ_of_ne_zero (by omega : more ≠ 0)
    have hoperand : ∀ {value : ValueRef} {words : List String},
        program.valueWordsWith (program.instructionWordsWithin depth) value = .ok words →
          after.valueWordsWith (after.instructionWordsWithin more) value = .ok words :=
      h.valueWordsWith_eq fun ref words => ih (by omega)
    obtain ⟨entry, hentry, hrest⟩ := query_bind_eq_ok.1 hwords
    obtain ⟨entry', hentry', hoperation⟩ := h.instructions ref entry (found_eq_ok.1 hentry)
    refine query_bind_eq_ok.2 ⟨entry', found_eq_ok.2 hentry', ?_⟩
    rw [hoperation]
    split at hrest
    · next callee arguments _ =>
      obtain ⟨function, hfunction, hwritten⟩ := query_bind_eq_ok.1 hrest
      obtain ⟨operands, hoperands, hlast⟩ := query_bind_eq_ok.1 hwritten
      obtain ⟨function', hfunction', hname, -⟩ :=
        h.functions callee function (found_eq_ok.1 hfunction)
      refine query_bind_eq_ok.2 ⟨function', found_eq_ok.2 hfunction', ?_⟩
      rw [hname]
      refine query_bind_eq_ok.2 ⟨operands, ?_, hlast⟩
      exact mapM_of_forall₂ ((forall₂_of_mapM_ok hoperands).imp fun _ _ => hoperand)
    · exact hrest
    · obtain ⟨written, hwritten, hlast⟩ := query_bind_eq_ok.1 hrest
      exact query_bind_eq_ok.2 ⟨written, hoperand hwritten, hlast⟩
    · obtain ⟨written, hwritten, hlast⟩ := query_bind_eq_ok.1 hrest
      exact query_bind_eq_ok.2 ⟨written, hoperand hwritten, hlast⟩
    · obtain ⟨name, hname, hlast⟩ := query_bind_eq_ok.1 hrest
      exact query_bind_eq_ok.2 ⟨name, h.typeName hname, hlast⟩
    · obtain ⟨pointer, hpointer, hboth⟩ := query_bind_eq_ok.1 hrest
      obtain ⟨written, hwritten, hlast⟩ := query_bind_eq_ok.1 hboth
      exact query_bind_eq_ok.2 ⟨pointer, hoperand hpointer,
        query_bind_eq_ok.2 ⟨written, hoperand hwritten, hlast⟩⟩
    · exact hrest
    · obtain ⟨written, hwritten, hlast⟩ := query_bind_eq_ok.1 hrest
      exact query_bind_eq_ok.2 ⟨written, hoperand hwritten, hlast⟩
    · obtain ⟨written, hwritten, hlast⟩ := query_bind_eq_ok.1 hrest
      exact query_bind_eq_ok.2 ⟨written, hoperand hwritten, hlast⟩

/-- **Reading through references**: what keeps all entries what they are reads alike through its
references. -/
theorem readsAlike : program.ReadsAlike after where
  typeName _ _ := h.typeName
  signature _ _ := h.signature?_eq
  denotes _ _ := h.denotes
  valueType _ _ := h.valueTypeWith_eq fun _ _ => h.resultTypeWithin_eq h.operandDepth_le
  resultType _ _ := h.resultTypeWithin_eq h.operandDepth_le
  valueWords _ _ := h.valueWordsWith_eq fun _ _ => h.instructionWordsWithin_eq h.operandDepth_le
  instructionWords _ _ := h.instructionWordsWithin_eq h.operandDepth_le

end Extends

end Program

end ChainIR
