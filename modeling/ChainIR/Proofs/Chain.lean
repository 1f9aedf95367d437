import Mathlib
import ChainIR.Proofs.Step
import ChainIR.Program.Chain

/-! # The chain of a label

`Program.Chained` says that the links of a program make a list of instructions the chain of a
label. The links in front tell the places of a chain apart (`Chained.nodup`), so that a walk from
the front meets the end at the last instruction and not before (`Chained.chain_eq`). Linking a
free instruction behind one of a chain or at the end puts it at its place in the list and touches
no other chain (`Edit.insertAfter_yields`, `Edit.pushBack_yields`). -/

namespace ChainIR

/-! ## Links and what is besides them -/

/-- An instruction without its links. -/
def Instruction.unlinked (instruction : Instruction) : Instruction :=
  { instruction with next := none, previous := none, label := none }

/-- A label without its chain. -/
def Label.emptied (label : Label) : Label := { label with head := none, tail := none }

/-- Instructions agree without their links if they know the same place, operation and result. -/
theorem Instruction.unlinked_eq_iff {first second : Instruction} :
    first.unlinked = second.unlinked ↔ first.self = second.self ∧
      first.operation = second.operation ∧ first.result = second.result := by
  simp [unlinked]

/-- Labels agree without their chains if they know the same place, name and function. -/
theorem Label.emptied_eq_iff {first second : Label} :
    first.emptied = second.emptied ↔ first.self = second.self ∧ first.name = second.name ∧
      first.function = second.function := by
  simp [emptied]

/-- An instruction that is in no chain has no links. -/
def Instruction.IsFree (instruction : Instruction) : Prop :=
  instruction.label = none ∧ instruction.next = none ∧ instruction.previous = none

namespace Program

/-- An instruction is in the chain of a label, between the given neighbours. -/
def LinkedAt (program : Program) (label : LabelRef) (ref : InstructionRef)
    (previous next : Option InstructionRef) : Prop :=
  ∃ entry, program.instructions.get? ref = some entry ∧ entry.label = some label ∧
    entry.previous = previous ∧ entry.next = next

/-- The element in front of a position of a list, if there is one. -/
def elementBefore {α : Type} (items : List α) : Nat → Option α
  | 0 => none
  | position + 1 => items[position]?

/-- The instructions of a label, first to last, are those of a list. -/
structure Chained (program : Program) (label : LabelRef) (refs : List InstructionRef) :
    Prop where
  /-- The label knows both ends. -/
  ends : ∃ entry, program.labels.get? label = some entry ∧ entry.head = refs.head? ∧
    entry.tail = refs.getLast?
  /-- Every instruction knows its neighbours. -/
  links : ∀ (position : Nat) (ref : InstructionRef), refs[position]? = some ref →
    program.LinkedAt label ref (elementBefore refs position) refs[position + 1]?

/-- What follows a chain in which only the links of one label have changed. -/
structure Relinks (program : Program) (label : LabelRef) (inserted : InstructionRef)
    (after : Program) : Prop where
  /-- Nothing but instructions and labels has changed. -/
  rest : after = { program with instructions := after.instructions, labels := after.labels }
  /-- Instructions have changed in their links alone. -/
  instructions : ∀ ref, (after.instructions.get? ref).map Instruction.unlinked =
    (program.instructions.get? ref).map Instruction.unlinked
  /-- Labels have changed in their ends alone. -/
  labels : ∀ ref, (after.labels.get? ref).map Label.emptied =
    (program.labels.get? ref).map Label.emptied
  /-- Other instructions stay in their chains, and outside of this one they are as they were. -/
  others : ∀ ref entry, program.instructions.get? ref = some entry → ref ≠ inserted →
    ∃ entry', after.instructions.get? ref = some entry' ∧ entry'.label = entry.label ∧
      (entry.label ≠ some label → entry' = entry)
  /-- Other labels are as they were. -/
  otherLabels : ∀ ref, ref ≠ label → after.labels.get? ref = program.labels.get? ref

/-! ## Walks through chains -/

namespace Chained

variable {program after : Program} {label : LabelRef} {refs : List InstructionRef}

/-- The instructions of a chain know their label. -/
theorem label_of_mem (h : program.Chained label refs) {ref : InstructionRef} (hmem : ref ∈ refs) :
    ∃ entry, program.instructions.get? ref = some entry ∧ entry.label = some label := by
  obtain ⟨position, hposition⟩ := List.getElem?_of_mem hmem
  obtain ⟨entry, hentry, hlabel, -⟩ := h.links position ref hposition
  exact ⟨entry, hentry, hlabel⟩

/-- An instruction stands at one place of a chain: two places of one instruction would have one
place in front of them. -/
theorem position_unique (h : program.Chained label refs) {ref : InstructionRef}
    {left right : Nat} (hleft : refs[left]? = some ref) (hright : refs[right]? = some ref) :
    left = right := by
  induction left generalizing right ref with
  | zero =>
    obtain ⟨entry, hentry, -, hbefore, -⟩ := h.links 0 ref hleft
    obtain ⟨entry', hentry', -, hbefore', -⟩ := h.links right ref hright
    -- the first element has nothing before it, which the entry says of no other place
    obtain rfl : entry = entry' := Option.some.inj (hentry.symm.trans hentry')
    cases right with
    | zero => rfl
    | succ right =>
      have hnone : refs[right]? = none := hbefore'.symm.trans hbefore
      have hlt := (List.getElem?_eq_some_iff.1 hright).1
      simp at hnone
      omega
  | succ left ih =>
    obtain ⟨entry, hentry, -, hbefore, -⟩ := h.links (left + 1) ref hleft
    obtain ⟨entry', hentry', -, hbefore', -⟩ := h.links right ref hright
    obtain rfl : entry = entry' := Option.some.inj (hentry.symm.trans hentry')
    have hlt := (List.getElem?_eq_some_iff.1 hleft).1
    obtain ⟨before, hleft'⟩ : ∃ before, refs[left]? = some before :=
      ⟨_, List.getElem?_eq_getElem (by omega)⟩
    have hequal : elementBefore refs right = some before := by
      rw [← hbefore', hbefore, elementBefore, hleft']
    cases right with
    | zero => exact nomatch hequal
    | succ right => rw [ih hleft' hequal]

/-- No instruction is twice in a chain. -/
theorem nodup (h : program.Chained label refs) : refs.Nodup := by
  rw [List.nodup_iff_getElem?_ne_getElem?]
  intro left right hlt hright hequal
  have hleft := List.getElem?_eq_getElem (l := refs) (i := left) (by omega)
  have := h.position_unique hleft (hequal ▸ hleft)
  omega

/-- A chain is no longer than the program has instructions. -/
theorem length_le (h : program.Chained label refs) : refs.length ≤ program.instructions.size := by
  have hnodup : (refs.map Ref.index).Nodup :=
    h.nodup.map fun left right hequal => by cases left; cases right; simp_all
  have hsub : refs.map Ref.index ⊆ List.range program.instructions.size := by
    intro index hindex
    obtain ⟨ref, hmem, rfl⟩ := List.mem_map.1 hindex
    obtain ⟨entry, hentry, -⟩ := h.label_of_mem hmem
    exact List.mem_range.2 (Arena.lt_size_of_get? hentry)
  simpa using (hnodup.subperm hsub).length_le

/-- A walk that has come to a place gives what is behind it. -/
theorem collect_drop (h : program.Chained label refs) (position count : Nat)
    (hcount : refs.length ≤ position + count) :
    Walk.collect (Walk.next program) count
      ⟨refs[position]?, if position < refs.length then refs.getLast? else none⟩ =
        .ok (refs.drop position) := by
  induction count generalizing position with
  | zero => rw [Walk.collect, List.drop_of_length_le (by omega)]
  | succ count ih =>
    rw [Walk.collect]
    by_cases hlt : position < refs.length
    · have here := List.getElem?_eq_getElem hlt
      obtain ⟨entry, hentry, -, -, hnext⟩ := h.links position _ here
      have hinstruction : program.instruction refs[position] = .ok entry := found_eq_ok.2 hentry
      rw [here, if_pos hlt, List.getLast?_eq_getElem?]
      -- the walk is over where both ends of what is left are one instruction
      have hmeet : refs[refs.length - 1]? = some refs[position] ↔ position + 1 = refs.length := by
        constructor
        · intro hlast
          have := h.position_unique here hlast
          omega
        · intro hend
          rw [← hend, Nat.add_sub_cancel, here]
      by_cases hend : position + 1 = refs.length
      · simp only [Walk.next, hinstruction, hmeet.2 hend, bind, Except.bind, pure, Except.pure,
          if_true]
        have hrest := ih (position + 1) (by omega)
        rw [if_neg (by omega), List.getElem?_eq_none (by omega)] at hrest
        simp only [hrest, ← List.drop_eq_getElem_cons hlt]
      · have hrest := ih (position + 1) (by omega)
        rw [if_pos (by omega), List.getLast?_eq_getElem?, ← hnext] at hrest
        simp only [Walk.next, hinstruction, mt hmeet.1 hend, bind, Except.bind, pure, Except.pure,
          if_false, hrest]
        rw [← List.drop_eq_getElem_cons hlt]
    · rw [List.getElem?_eq_none (by omega), if_neg hlt, List.drop_of_length_le (by omega)]
      rfl

/-- **Walking a chain**: a walk through the chain of a label gives its instructions. -/
theorem chain_eq (h : program.Chained label refs) : program.chain label = .ok refs := by
  obtain ⟨entry, hentry, hhead, htail⟩ := h.ends
  have hlabel : program.label label = .ok entry := found_eq_ok.2 hentry
  have hcollect := h.collect_drop 0 program.instructions.size (by simpa using h.length_le)
  have hstart : Walk.start entry =
      ⟨refs[0]?, if 0 < refs.length then refs.getLast? else none⟩ := by
    rw [Walk.start, hhead, htail]
    cases refs <;> rfl
  rw [chain, hlabel]
  simpa only [bind, Except.bind, hstart, List.drop_zero] using hcollect

/-- A label has one chain. -/
theorem unique (h : program.Chained label refs) {others : List InstructionRef}
    (hothers : program.Chained label others) : refs = others :=
  Except.ok.inj (h.chain_eq.symm.trans hothers.chain_eq)

/-- A chain stays as long as its label and the instructions of its label do. -/
theorem transfer (h : program.Chained label refs)
    (hlabel : after.labels.get? label = program.labels.get? label)
    (hinstructions : ∀ ref entry, program.instructions.get? ref = some entry →
      entry.label = some label → ∃ entry', after.instructions.get? ref = some entry' ∧
        entry'.label = entry.label ∧ entry'.previous = entry.previous ∧
        entry'.next = entry.next) :
    after.Chained label refs where
  ends := by
    rw [hlabel]
    exact h.ends
  links position ref href := by
    obtain ⟨entry, hentry, hown, hprevious, hnext⟩ := h.links position ref href
    obtain ⟨entry', hentry', hlabel', hprevious', hnext'⟩ := hinstructions ref entry hentry hown
    exact ⟨entry', hentry', hlabel'.trans hown, hprevious'.trans hprevious, hnext'.trans hnext⟩

end Chained

/-! ## Changes of links -/

namespace Relinks

variable {program after : Program} {label : LabelRef} {inserted : InstructionRef}
  (h : program.Relinks label inserted after)

include h

/-- Every instruction that was there is still there, and is the same but for its links. -/
theorem instruction_after {ref : InstructionRef} {entry : Instruction}
    (hentry : program.instructions.get? ref = some entry) :
    ∃ later, after.instructions.get? ref = some later ∧ later.self = entry.self ∧
      later.operation = entry.operation ∧ later.result = entry.result := by
  have hsame := h.instructions ref
  rw [hentry, Option.map_some, Option.map_eq_some_iff] at hsame
  obtain ⟨later, hlater, hequal⟩ := hsame
  exact ⟨later, hlater, Instruction.unlinked_eq_iff.1 hequal⟩

/-- Every instruction was there before, and was the same but for its links. -/
theorem instruction_before {ref : InstructionRef} {entry : Instruction}
    (hentry : after.instructions.get? ref = some entry) :
    ∃ old, program.instructions.get? ref = some old ∧ entry.self = old.self ∧
      entry.operation = old.operation ∧ entry.result = old.result := by
  have hsame := h.instructions ref
  rw [hentry, Option.map_some, eq_comm, Option.map_eq_some_iff] at hsame
  obtain ⟨old, hold, hequal⟩ := hsame
  exact ⟨old, hold, Instruction.unlinked_eq_iff.1 hequal.symm⟩

/-- Every label that was there is still there, and is the same but for its ends. -/
theorem label_after {ref : LabelRef} {entry : Label}
    (hentry : program.labels.get? ref = some entry) :
    ∃ later, after.labels.get? ref = some later ∧ later.self = entry.self ∧
      later.name = entry.name ∧ later.function = entry.function := by
  have hsame := h.labels ref
  rw [hentry, Option.map_some, Option.map_eq_some_iff] at hsame
  obtain ⟨later, hlater, hequal⟩ := hsame
  exact ⟨later, hlater, Label.emptied_eq_iff.1 hequal⟩

/-- Every label was there before, and was the same but for its ends. -/
theorem label_before {ref : LabelRef} {entry : Label}
    (hentry : after.labels.get? ref = some entry) :
    ∃ old, program.labels.get? ref = some old ∧ entry.self = old.self ∧ entry.name = old.name ∧
      entry.function = old.function := by
  have hsame := h.labels ref
  rw [hentry, Option.map_some, eq_comm, Option.map_eq_some_iff] at hsame
  obtain ⟨old, hold, hequal⟩ := hsame
  exact ⟨old, hold, Label.emptied_eq_iff.1 hequal.symm⟩

/-- Another instruction than the linked one was in its chain before, and has not changed if that
chain has not. -/
theorem other_before {ref : InstructionRef} {entry : Instruction}
    (hentry : after.instructions.get? ref = some entry) (hne : ref ≠ inserted) :
    ∃ old, program.instructions.get? ref = some old ∧ entry.label = old.label ∧
      (old.label ≠ some label → entry = old) := by
  obtain ⟨old, hold, -⟩ := h.instruction_before hentry
  obtain ⟨later, hlater, hlabel, hsame⟩ := h.others ref old hold hne
  obtain rfl := Option.some.inj (hentry.symm.trans hlater)
  exact ⟨old, hold, hlabel, hsame⟩

/-- Linking what is in no chain leaves the instructions of other labels as they are. -/
theorem instruction_of_label {entry : Instruction}
    (hinserted : program.instructions.get? inserted = some entry) (hunlinked : entry.label = none)
    {other : LabelRef} (hne : other ≠ label) {ref : InstructionRef} {found : Instruction}
    (hfound : program.instructions.get? ref = some found) (hown : found.label = some other) :
    after.instructions.get? ref = some found := by
  have hother : ref ≠ inserted := by
    rintro rfl
    obtain rfl := Option.some.inj (hfound.symm.trans hinserted)
    exact nomatch hown.symm.trans hunlinked
  obtain ⟨later, hlater, -, hsame⟩ := h.others ref found hfound hother
  obtain rfl := hsame (hown ▸ fun hequal => hne (Option.some.inj hequal))
  exact hlater

end Relinks

end Program

/-! ## Linking -/

namespace Edit

open Program

variable {program : Program}

/-- An instruction that is there can be changed. -/
theorem updateInstruction_of_some {ref : InstructionRef}
    (h : ∃ entry, program.instructions.get? ref = some entry)
    (change : Instruction → Instruction) :
    updateInstruction ref change program =
      .ok ((), { program with instructions := program.instructions.modify ref change }) := by
  obtain ⟨entry, h⟩ := h
  rw [updateInstruction, Step.bind_of_ok (ask_of_ok (found_eq_ok.2 h)), Step.modify_apply]

/-- A label that is there can be changed. -/
theorem updateLabel_of_some {ref : LabelRef}
    (h : ∃ entry, program.labels.get? ref = some entry) (change : Label → Label) :
    updateLabel ref change program =
      .ok ((), { program with labels := program.labels.modify ref change }) := by
  obtain ⟨entry, h⟩ := h
  rw [updateLabel, Step.bind_of_ok (ask_of_ok (found_eq_ok.2 h)), Step.modify_apply]

/-- What linking a free instruction behind another one does to the links of the program. -/
structure Splices (program : Program) (label : LabelRef) (point ref : InstructionRef)
    (next : Option InstructionRef) (after : Program) : Prop where
  /-- Nothing but instructions and labels has changed. -/
  rest : after = { program with instructions := after.instructions, labels := after.labels }
  /-- The new instruction stands between its neighbours. -/
  inserted : after.instructions.get? ref = (program.instructions.get? ref).map fun entry =>
    { entry with next, previous := some point, label := some label }
  /-- Its neighbours know it, and other instructions are as they were. -/
  others : ∀ other, other ≠ ref →
    after.instructions.get? other = (program.instructions.get? other).map fun entry =>
      { entry with
        next := if other = point then some ref else entry.next
        previous := if next = some other then some ref else entry.previous }
  /-- The label has a new end if the instruction is linked behind the last. -/
  labels : ∀ other, after.labels.get? other = (program.labels.get? other).map fun ends =>
    if other = label ∧ next = none then { ends with tail := some ref } else ends

/-- Linking a free instruction behind one that is in a chain. -/
theorem insertAfter_splices {point ref : InstructionRef} {place entry : Instruction}
    {label : LabelRef} {ends : Label} (hpoint : program.instructions.get? point = some place)
    (hlabel : place.label = some label) (hends : program.labels.get? label = some ends)
    (hnext : ∀ other, place.next = some other → other ≠ point ∧ other ≠ ref ∧
      ∃ found, program.instructions.get? other = some found)
    (hentry : program.instructions.get? ref = some entry) (hfree : entry.IsFree) :
    Step.Yields (insertAfter point ref) program fun _ after =>
      Splices program label point ref place.next after := by
  have hdistinct : point ≠ ref := by
    rintro rfl
    obtain rfl : place = entry := Option.some.inj (hpoint.symm.trans hentry)
    exact nomatch hlabel.symm.trans hfree.1
  have hplace : ask (·.instruction point) program = .ok (place, program) :=
    ask_of_ok (found_eq_ok.2 hpoint)
  have hasked : ask (·.instruction ref) program = .ok (entry, program) :=
    ask_of_ok (found_eq_ok.2 hentry)
  rw [insertAfter]
  refine .bind_of_ok hplace ?_
  simp only [hlabel]
  refine .bind_of_ok hasked ?_
  simp only [hfree.1, Option.isSome_none, Bool.false_eq_true, if_false]
  cases hplaceNext : place.next with
  | none =>
    -- behind the last instruction of a chain, its label gets a new end
    refine .bind_of_ok (updateLabel_of_some ⟨ends, hends⟩ _) ?_
    refine .bind_of_ok (updateInstruction_of_some ?_ _) ?_
    · exact ⟨entry, hentry⟩
    refine ⟨(), _, updateInstruction_of_some ⟨place, ?_⟩ _, rfl, ?_, fun other hne => ?_,
      fun other => ?_⟩
    · rw [Arena.get?_modify, if_neg hdistinct, hpoint]
    · simp [Arena.get?_modify, hdistinct.symm]
    · by_cases hequal : other = point
      · simp [Arena.get?_modify, hequal, hdistinct]
      · simp [Arena.get?_modify, hequal, hne]
    · by_cases hequal : other = label <;> simp [Arena.get?_modify, hequal]
  | some behind =>
    obtain ⟨hbehind, hbehind', found, hfound⟩ := hnext behind hplaceNext
    -- between two instructions, the one behind gets a new neighbour and the label stays
    refine .bind_of_ok (updateInstruction_of_some ⟨found, hfound⟩ _) ?_
    refine .bind_of_ok (updateInstruction_of_some ?_ _) ?_
    · exact ⟨entry, by rw [Arena.get?_modify, if_neg hbehind'.symm, hentry]⟩
    refine ⟨(), _, updateInstruction_of_some ⟨place, ?_⟩ _, rfl, ?_, fun other hne => ?_,
      fun other => ?_⟩
    · rw [Arena.get?_modify, if_neg hdistinct, Arena.get?_modify, if_neg hbehind.symm, hpoint]
    · simp [Arena.get?_modify, hdistinct.symm, hbehind'.symm]
    · by_cases hequal : other = point
      · simp [Arena.get?_modify, hequal, hdistinct, hbehind.symm, hbehind]
      · by_cases hequal' : other = behind
        · simp [Arena.get?_modify, hequal', hbehind, hbehind']
        · simp [Arena.get?_modify, hequal, hequal', hne, Ne.symm hequal']
    · simp

/-- A free instruction is in no chain. -/
theorem not_mem_of_isFree {label : LabelRef} {refs : List InstructionRef} {ref : InstructionRef}
    {entry : Instruction} (h : program.Chained label refs)
    (hentry : program.instructions.get? ref = some entry) (hfree : entry.IsFree) : ref ∉ refs := by
  intro hmem
  obtain ⟨entry', hentry', hlabel⟩ := h.label_of_mem hmem
  obtain rfl : entry' = entry := Option.some.inj (hentry'.symm.trans hentry)
  exact nomatch hlabel.symm.trans hfree.1

section Spliced

variable {after : Program} {label : LabelRef} {refs : List InstructionRef} {position : Nat}
  {point ref : InstructionRef}
  (hsplices : Splices program label point ref refs[position + 1]? after)
  (h : program.Chained label refs) (hpoint : refs[position]? = some point)

include hsplices h hpoint

/-- The label knows the ends of the longer chain. -/
theorem Splices.ends : ∃ ends, after.labels.get? label = some ends ∧
    ends.head = (refs.insertIdx (position + 1) ref).head? ∧
      ends.tail = (refs.insertIdx (position + 1) ref).getLast? := by
  have hlt := (List.getElem?_eq_some_iff.1 hpoint).1
  obtain ⟨ends, hends, hhead, htail⟩ := h.ends
  have hlabel := hsplices.labels label
  rw [hends, Option.map_some] at hlabel
  refine ⟨_, hlabel, ?_, ?_⟩
  · rw [List.head?_eq_getElem?, List.getElem?_insertIdx_of_lt (by omega), ← List.head?_eq_getElem?,
      ← hhead]
    split <;> rfl
  · rw [List.getLast?_eq_getElem?, List.length_insertIdx_of_le_length (by omega),
      Nat.add_sub_cancel, List.getElem?_insertIdx]
    by_cases hlast : position + 1 < refs.length
    · have hsome : refs[position + 1]? ≠ none := by simpa using hlast
      rw [if_neg (by simp [hsome]), htail, List.getLast?_eq_getElem?, if_neg (by omega),
        if_neg (by omega)]
    · have hnone : refs[position + 1]? = none := List.getElem?_eq_none (by omega)
      rw [if_pos ⟨rfl, hnone⟩, if_neg (by omega), if_pos (by omega), if_pos (by omega)]

/-- In front of the new instruction only the one before it has a new neighbour. -/
theorem Splices.linked_front (hnew : ref ∉ refs) {index : Nat} {other : InstructionRef}
    (hother : refs[index]? = some other) (hfront : index ≤ position) :
    after.LinkedAt label other (elementBefore (refs.insertIdx (position + 1) ref) index)
      (refs.insertIdx (position + 1) ref)[index + 1]? := by
  have hlt := (List.getElem?_eq_some_iff.1 hpoint).1
  obtain ⟨old, hold, howned, hbefore, hnext⟩ := h.links index other hother
  have hne : other ≠ ref := fun hequal => hnew (hequal ▸ List.mem_of_getElem? hother)
  have hentry' := hsplices.others other hne
  rw [hold, Option.map_some] at hentry'
  refine ⟨_, hentry', howned, ?_, ?_⟩
  · -- what is before an element in front is not touched by the splice
    have hnot : refs[position + 1]? ≠ some other := by
      intro hsame
      have := h.position_unique hsame hother
      omega
    rw [if_neg hnot, hbefore]
    cases index with
    | zero => rfl
    | succ index => exact (List.getElem?_insertIdx_of_lt (by omega)).symm
  · dsimp only
    by_cases hequal : other = point
    · -- the point of the splice has the new element behind it
      have hindex := h.position_unique hother (hequal ▸ hpoint)
      rw [if_pos hequal, List.getElem?_insertIdx, if_neg (by omega), if_pos (by omega),
        if_pos (by omega)]
    · have hindex : index ≠ position := by
        rintro rfl
        exact hequal (Option.some.inj (hother.symm.trans hpoint))
      rw [if_neg hequal, hnext, List.getElem?_insertIdx_of_lt (by omega)]

omit h in
/-- The new instruction stands between the one that it is linked behind and the next one. -/
theorem Splices.linked_new {entry : Instruction}
    (hentry : program.instructions.get? ref = some entry) :
    after.LinkedAt label ref (elementBefore (refs.insertIdx (position + 1) ref) (position + 1))
      (refs.insertIdx (position + 1) ref)[position + 1 + 1]? := by
  have hentry' := hsplices.inserted
  rw [hentry, Option.map_some] at hentry'
  refine ⟨_, hentry', rfl, ?_, ?_⟩
  · rw [elementBefore, List.getElem?_insertIdx_of_lt (by omega), hpoint]
  · rw [List.getElem?_insertIdx, if_neg (by omega), if_neg (by omega), Nat.add_sub_cancel]

/-- Behind the new instruction only the next one has a new neighbour. -/
theorem Splices.linked_back (hnew : ref ∉ refs) {before : Nat} {other : InstructionRef}
    (hother : refs[before + 1]? = some other) (hback : position ≤ before) :
    after.LinkedAt label other (elementBefore (refs.insertIdx (position + 1) ref) (before + 2))
      (refs.insertIdx (position + 1) ref)[before + 2 + 1]? := by
  have hlt := (List.getElem?_eq_some_iff.1 hother).1
  obtain ⟨old, hold, howned, hbefore, hnext⟩ := h.links (before + 1) other hother
  have hne : other ≠ ref := fun hequal => hnew (hequal ▸ List.mem_of_getElem? hother)
  have hentry' := hsplices.others other hne
  rw [hold, Option.map_some] at hentry'
  refine ⟨_, hentry', howned, ?_, ?_⟩
  · -- the element behind the point has the new one before it, any later one its old neighbour
    dsimp only
    rw [elementBefore, List.getElem?_insertIdx]
    by_cases hequal : refs[position + 1]? = some other
    · have hindex := h.position_unique hequal hother
      rw [if_pos hequal, if_neg (by omega), if_pos (by omega), if_pos (by omega)]
    · have hindex : before ≠ position := by
        rintro rfl
        exact hequal hother
      rw [if_neg hequal, hbefore, if_neg (by omega), if_neg (by omega), elementBefore,
        Nat.add_sub_cancel]
  · have hnot : other ≠ point := by
      rintro rfl
      have := h.position_unique hpoint hother
      omega
    rw [if_neg hnot, hnext, List.getElem?_insertIdx, if_neg (by omega), if_neg (by omega),
      Nat.add_sub_cancel]

/-- Linking behind an instruction of a chain puts the new one behind it. -/
theorem Splices.chained {entry : Instruction}
    (hentry : program.instructions.get? ref = some entry) (hfree : entry.IsFree) :
    after.Chained label (refs.insertIdx (position + 1) ref) := by
  have hnew := not_mem_of_isFree h hentry hfree
  have hlt := (List.getElem?_eq_some_iff.1 hpoint).1
  refine ⟨hsplices.ends h hpoint, fun index other hother => ?_⟩
  rw [List.getElem?_insertIdx] at hother
  -- what stands in front of the new instruction, the new one, and what stands behind it
  rcases Nat.lt_trichotomy index (position + 1) with hfront | rfl | hback
  · rw [if_pos hfront] at hother
    exact hsplices.linked_front h hpoint hnew hother (by omega)
  · rw [if_neg (by omega), if_pos rfl, if_pos (by omega)] at hother
    obtain rfl := Option.some.inj hother
    exact hsplices.linked_new hpoint hentry
  · rw [if_neg (by omega), if_neg (by omega)] at hother
    obtain ⟨before, rfl⟩ : ∃ before, index = before + 2 := ⟨index - 2, by omega⟩
    exact hsplices.linked_back h hpoint hnew hother (by omega)

end Spliced

/-- Linking into the chain of a label touches no other chain. -/
theorem Splices.relinks {after : Program} {label : LabelRef} {refs : List InstructionRef}
    {position : Nat} {point ref : InstructionRef} {entry : Instruction}
    (hsplices : Splices program label point ref refs[position + 1]? after)
    (h : program.Chained label refs) (hpoint : refs[position]? = some point)
    (hentry : program.instructions.get? ref = some entry) : program.Relinks label ref after := by
  refine ⟨hsplices.rest, fun other => ?_, fun other => ?_, fun other old hold hne => ?_,
    fun other hne => ?_⟩
  · by_cases hequal : other = ref
    · rw [hequal, hsplices.inserted, hentry]
      rfl
    · rw [hsplices.others other hequal, Option.map_map]
      rfl
  · rw [hsplices.labels, Option.map_map]
    congr 1
    funext ends
    rw [Function.comp_apply]
    split <;> rfl
  · have hentry' := hsplices.others other hne
    rw [hold, Option.map_some] at hentry'
    refine ⟨_, hentry', rfl, fun hlabel => ?_⟩
    -- what has another label is not in this chain, so it is no neighbour of the new instruction
    have hoff : ∀ index : Nat, refs[index]? ≠ some other := by
      intro index hindex
      obtain ⟨found, hfound, howned, -⟩ := h.links index other hindex
      obtain rfl : found = old := Option.some.inj (hfound.symm.trans hold)
      exact hlabel howned
    have hnot : other ≠ point := by
      rintro rfl
      exact hoff position hpoint
    rw [if_neg hnot, if_neg (hoff _)]
  · rw [hsplices.labels]
    simp [hne]

/-- **Linking behind an instruction** of a chain, for an instruction that is in none. -/
theorem insertAfter_yields {label : LabelRef} {refs : List InstructionRef} {position : Nat}
    {point ref : InstructionRef} {entry : Instruction} (h : program.Chained label refs)
    (hpoint : refs[position]? = some point)
    (hentry : program.instructions.get? ref = some entry) (hfree : entry.IsFree) :
    Step.Yields (insertAfter point ref) program fun _ after =>
      after.Chained label (refs.insertIdx (position + 1) ref) ∧ program.Relinks label ref after := by
  obtain ⟨place, hplace, howned, -, hnext⟩ := h.links position point hpoint
  obtain ⟨ends, hends, -⟩ := h.ends
  have hbehind : ∀ other, place.next = some other → other ≠ point ∧ other ≠ ref ∧
      ∃ found, program.instructions.get? other = some found := by
    intro other hother
    rw [hnext] at hother
    obtain ⟨found, hfound, -⟩ := h.links _ other hother
    refine ⟨?_, ?_, found, hfound⟩
    · rintro rfl
      have := h.position_unique hpoint hother
      omega
    · rintro rfl
      exact not_mem_of_isFree h hentry hfree (List.mem_of_getElem? hother)
  refine (insertAfter_splices hplace howned hends hbehind hentry hfree).mono fun _ after hafter => ?_
  rw [hnext] at hafter
  exact ⟨hafter.chained h hpoint hentry hfree, hafter.relinks h hpoint hentry⟩

/-- Linking a free instruction to a label without instructions: it is both ends of the label. -/
theorem linkFirst_yields {label : LabelRef} {ref : InstructionRef} {entry : Instruction}
    {ends : Label} (hends : program.labels.get? label = some ends)
    (hentry : program.instructions.get? ref = some entry) (hfree : entry.IsFree) :
    Step.Yields (do
      updateLabel label fun entry => { entry with head := some ref, tail := some ref }
      updateInstruction ref fun entry => { entry with label := some label }) program fun _ after =>
        after.Chained label [ref] ∧ program.Relinks label ref after := by
  refine .bind_of_ok (updateLabel_of_some ⟨ends, hends⟩ _) ?_
  refine ⟨(), _, updateInstruction_of_some ?_ _, ?_, ?_⟩
  · exact ⟨entry, hentry⟩
  · refine ⟨⟨{ ends with head := some ref, tail := some ref }, ?_, rfl, rfl⟩, ?_⟩
    · simp [Arena.get?_modify, hends]
    · intro position other hother
      -- a chain of one has one place
      obtain ⟨rfl, rfl⟩ : position = 0 ∧ ref = other := by
        cases position <;> simp_all
      refine ⟨{ entry with label := some label }, ?_, rfl, hfree.2.2, hfree.2.1⟩
      simp [Arena.get?_modify, hentry]
  · refine ⟨rfl, fun other => ?_, fun other => ?_, fun other entry' hother hne => ?_,
      fun other hne => ?_⟩
    · by_cases hequal : other = ref
      · subst hequal
        simp [Arena.get?_modify, hentry, Instruction.unlinked]
      · simp [Arena.get?_modify, hequal]
    · by_cases hequal : other = label
      · subst hequal
        simp [Arena.get?_modify, hends, Label.emptied]
      · simp [Arena.get?_modify, hequal]
    · exact ⟨entry', by simpa [Arena.get?_modify, hne] using hother, rfl, fun _ => rfl⟩
    · simp [Arena.get?_modify, hne]

/-- **Linking at the end of a chain**, for an instruction that is in none. -/
theorem pushBack_yields {label : LabelRef} {refs : List InstructionRef} {ref : InstructionRef}
    {entry : Instruction} (h : program.Chained label refs)
    (hentry : program.instructions.get? ref = some entry) (hfree : entry.IsFree) :
    Step.Yields (pushBack label ref) program fun _ after =>
      after.Chained label (refs ++ [ref]) ∧ program.Relinks label ref after := by
  have hasked : ask (·.instruction ref) program = .ok (entry, program) :=
    ask_of_ok (found_eq_ok.2 hentry)
  obtain ⟨ends, hends, hhead, htail⟩ := h.ends
  have hlabel : ask (·.label label) program = .ok (ends, program) :=
    ask_of_ok (found_eq_ok.2 hends)
  rw [pushBack]
  refine .bind_of_ok hasked ?_
  simp only [hfree.1, Option.isSome_none, Bool.false_eq_true, if_false]
  refine .bind_of_ok hlabel ?_
  cases hback : refs.getLast? with
  | none =>
    obtain rfl := List.getLast?_eq_none_iff.1 hback
    simp only [htail, hback]
    exact linkFirst_yields hends hentry hfree
  | some last =>
    simp only [htail, hback]
    -- an instruction behind others is linked after the last of them
    have hlength : 0 < refs.length := by
      cases refs with
      | nil => simp at hback
      | cons => simp
    have hpoint : refs[refs.length - 1]? = some last := by
      rw [← List.getLast?_eq_getElem?, hback]
    have hinsert := insertAfter_yields h hpoint hentry hfree
    rw [Nat.sub_add_cancel hlength, List.insertIdx_length_self] at hinsert
    exact hinsert

end Edit

end ChainIR
