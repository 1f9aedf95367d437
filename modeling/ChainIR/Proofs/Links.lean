import Mathlib
import ChainIR.Proofs.Request

/-! # Chains as sequences

The links of a program stand for one sequence of instructions per label (`Program.Links`): a label
knows the ends of its sequence, an instruction its neighbours, and an instruction outside of all
sequences has no links. The sequences are determined by the program (`Links.unique`), have no
instruction twice and none in common. To link is to insert into one of them (`Links.insert`), and
whatever requests have built a program, its links are such sequences
(`Request.links_of_runAll`). -/

namespace ChainIR

namespace Program

/-! ## Families of chains -/

/-- **Families of chains**: the links of a program make the given sequences the chains of its
labels. -/
structure Links (program : Program) (chains : LabelRef → List InstructionRef) : Prop where
  /-- Every label has its chain. -/
  chained : ∀ label entry, program.labels.get? label = some entry →
    program.Chained label (chains label)
  /-- Without a label there is no chain. -/
  absent : ∀ label, program.labels.get? label = none → chains label = []
  /-- Instructions outside of all chains have no links. -/
  free : ∀ ref entry, program.instructions.get? ref = some entry →
    (∀ label, ref ∉ chains label) → entry.IsFree

namespace Links

variable {program after : Program} {chains : LabelRef → List InstructionRef}
  (h : program.Links chains)

include h

/-- What is in a chain is in the chain of a label. -/
theorem chained_of_mem {label : LabelRef} {ref : InstructionRef} (hmem : ref ∈ chains label) :
    program.Chained label (chains label) := by
  cases hentry : program.labels.get? label with
  | none =>
    rw [h.absent label hentry] at hmem
    exact absurd hmem List.not_mem_nil
  | some entry => exact h.chained label entry hentry

/-- An instruction is in the chain of the label that it knows, and in no other. -/
theorem mem_iff {label : LabelRef} {ref : InstructionRef} {entry : Instruction}
    (hentry : program.instructions.get? ref = some entry) :
    ref ∈ chains label ↔ entry.label = some label := by
  have hknows : ∀ label, ref ∈ chains label → entry.label = some label := by
    intro label hmem
    obtain ⟨entry', hentry', hlabel⟩ := (h.chained_of_mem hmem).label_of_mem hmem
    obtain rfl := Option.some.inj (hentry.symm.trans hentry')
    exact hlabel
  refine ⟨hknows label, fun hlabel => ?_⟩
  -- outside of this chain it would be outside of all, and then it would know no label
  by_contra hnot
  have hout : ∀ other, ref ∉ chains other := by
    intro other hmem
    obtain rfl := Option.some.inj (hlabel.symm.trans (hknows other hmem))
    exact hnot hmem
  exact absurd ((h.free ref entry hentry hout).1.symm.trans hlabel) (by simp)

/-- An instruction that knows no label has no links. -/
theorem isFree {ref : InstructionRef} {entry : Instruction}
    (hentry : program.instructions.get? ref = some entry) (hlabel : entry.label = none) :
    entry.IsFree := by
  refine h.free ref entry hentry fun label hmem => ?_
  exact absurd (hlabel.symm.trans ((h.mem_iff hentry).1 hmem)) (by simp)

/-- No instruction is twice in a chain. -/
theorem nodup (label : LabelRef) : (chains label).Nodup := by
  cases hentry : program.labels.get? label with
  | none =>
    rw [h.absent label hentry]
    exact List.nodup_nil
  | some entry => exact (h.chained label entry hentry).nodup

/-- No instruction is in two chains. -/
theorem label_unique {left right : LabelRef} {ref : InstructionRef} (hleft : ref ∈ chains left)
    (hright : ref ∈ chains right) : left = right := by
  obtain ⟨entry, hentry, hlabel⟩ := (h.chained_of_mem hleft).label_of_mem hleft
  exact Option.some.inj (hlabel.symm.trans ((h.mem_iff hentry).1 hright))

/-- A program has one family of chains. -/
theorem unique {others : LabelRef → List InstructionRef} (hothers : program.Links others) :
    chains = others := by
  funext label
  cases hentry : program.labels.get? label with
  | none => rw [h.absent label hentry, hothers.absent label hentry]
  | some entry => exact (h.chained label entry hentry).unique (hothers.chained label entry hentry)

/-- A walk through a chain gives the chain. -/
theorem eq_of_chain {label : LabelRef} {refs : List InstructionRef}
    (hchain : program.chain label = .ok refs) : refs = chains label := by
  cases hentry : program.labels.get? label with
  | none =>
    rw [chain, Program.label, hentry] at hchain
    cases hchain
  | some entry =>
    exact Except.ok.inj (hchain.symm.trans (h.chained label entry hentry).chain_eq)

/-- Chains stay as long as the labels and the links of the instructions do. -/
theorem transfer (hlabels : after.labels = program.labels)
    (hinstructions : ∀ ref entry, program.instructions.get? ref = some entry →
      ∃ entry', after.instructions.get? ref = some entry' ∧ entry'.label = entry.label ∧
        entry'.previous = entry.previous ∧ entry'.next = entry.next)
    (hfresh : ∀ ref entry, after.instructions.get? ref = some entry →
      (∃ old, program.instructions.get? ref = some old) ∨ entry.IsFree) :
    after.Links chains := by
  refine ⟨fun label entry hentry => ?_, fun label hnone => ?_, fun ref entry hentry hout => ?_⟩
  · rw [hlabels] at hentry
    refine (h.chained label entry hentry).transfer (by rw [hlabels]) ?_
    intro ref found hfound _
    exact hinstructions ref found hfound
  · rw [hlabels] at hnone
    exact h.absent label hnone
  · rcases hfresh ref entry hentry with ⟨old, hold⟩ | hfree
    · obtain ⟨entry', hentry', hlabel, hprevious, hnext⟩ := hinstructions ref old hold
      obtain rfl := Option.some.inj (hentry.symm.trans hentry')
      obtain ⟨hlabel', hnext', hprevious'⟩ := h.free ref old hold hout
      exact ⟨hlabel.trans hlabel', hnext.trans hnext', hprevious.trans hprevious'⟩
    · exact hfree

/-- Chains stay while a program grows. -/
theorem grows (hgrows : program.Grows after) : after.Links chains := by
  refine h.transfer hgrows.labels (fun ref entry hentry => ?_) hgrows.fresh
  obtain ⟨result, hresult⟩ := hgrows.instructions ref entry hentry
  exact ⟨_, hresult, rfl, rfl, rfl⟩

/-- Chains stay if neither labels nor instructions change. -/
theorem congr (hlabels : after.labels = program.labels)
    (hinstructions : after.instructions = program.instructions) : after.Links chains := by
  refine h.transfer hlabels (fun ref entry hentry => ?_) (fun ref entry hentry => ?_)
  · exact ⟨entry, hinstructions ▸ hentry, rfl, rfl, rfl⟩
  · exact .inl ⟨entry, hinstructions ▸ hentry⟩

/-- A new label has an empty chain. -/
theorem addLabel {entry : Label} (hempty : entry.head = none ∧ entry.tail = none)
    (hlabels : after.labels = (program.labels.alloc entry).2)
    (hinstructions : after.instructions = program.instructions) : after.Links chains := by
  have hnew := h.absent _ (Arena.get?_nextRef program.labels)
  refine ⟨fun label found hfound => ?_, fun label hnone => ?_, fun ref found hfound => ?_⟩
  · by_cases hequal : label = program.labels.nextRef
    · subst hequal
      rw [hnew]
      rw [hlabels, Arena.get?_alloc_nextRef, Option.some.injEq] at hfound
      subst hfound
      refine ⟨⟨entry, ?_, hempty.1, hempty.2⟩, by simp⟩
      rw [hlabels, Arena.get?_alloc_nextRef]
    · have hsame : after.labels.get? label = program.labels.get? label := by
        rw [hlabels, Arena.get?_alloc, if_neg hequal]
      rw [hsame] at hfound
      refine (h.chained label found hfound).transfer hsame fun ref old hold _ => ?_
      exact ⟨old, hinstructions ▸ hold, rfl, rfl, rfl⟩
  · rw [hlabels, Arena.get?_alloc] at hnone
    split at hnone
    · exact absurd hnone (by simp)
    · exact h.absent label hnone
  · rw [hinstructions] at hfound
    exact h.free ref found hfound

/-- Whatever puts a free instruction into one chain and touches no other. -/
theorem insert {label : LabelRef} {refs : List InstructionRef} {ref : InstructionRef}
    {entry : Instruction} (hentry : program.instructions.get? ref = some entry)
    (hunlinked : entry.label = none) (hchained : after.Chained label refs)
    (hmem : ∀ other, other ∈ refs ↔ other ∈ chains label ∨ other = ref)
    (hrelinks : program.Relinks label ref after) :
    after.Links (Function.update chains label refs) := by
  refine ⟨fun other ends hends => ?_, fun other hnone => ?_, fun other found hfound hout => ?_⟩
  · by_cases hequal : other = label
    · subst hequal
      rwa [Function.update_self]
    · rw [Function.update_of_ne hequal]
      have hsame := hrelinks.otherLabels other hequal
      rw [hsame] at hends
      exact (h.chained other ends hends).transfer hsame fun place old hplace hown =>
        ⟨old, hrelinks.instruction_of_label hentry hunlinked hequal hplace hown, rfl, rfl, rfl⟩
  · have hne : other ≠ label := by
      rintro rfl
      obtain ⟨ends, hends, -⟩ := hchained.ends
      exact absurd (hends.symm.trans hnone) (by simp)
    rw [Function.update_of_ne hne]
    rw [hrelinks.otherLabels other hne] at hnone
    exact h.absent other hnone
  · -- what is in no chain has been in none before, and is not the linked instruction
    have hne : other ≠ ref := by
      rintro rfl
      refine hout label ?_
      rw [Function.update_self]
      exact (hmem other).2 (.inr rfl)
    have hout' : ∀ place, other ∉ chains place := by
      intro place hplace
      by_cases hequal : place = label
      · subst hequal
        refine hout place ?_
        rw [Function.update_self]
        exact (hmem other).2 (.inl hplace)
      · refine hout place ?_
        rwa [Function.update_of_ne hequal]
    obtain ⟨old, hold, -, hsame⟩ := hrelinks.other_before hfound hne
    have hfree := h.free other old hold hout'
    obtain rfl := hsame (by simp [hfree.1])
    exact hfree

end Links

end Program

/-! ## Linking and its failures -/

namespace Edit

open Program

variable {program after : Program} {chains : LabelRef → List InstructionRef}

/-- Linking at the end of a chain what is linked already fails. -/
theorem pushBack_of_linked (label : LabelRef) {ref : InstructionRef} {entry : Instruction}
    (hentry : program.instructions.get? ref = some entry) (hlinked : entry.label.isSome) :
    pushBack label ref program = .error .alreadyLinked := by
  rw [pushBack, Step.bind_of_ok (ask_of_ok (found_eq_ok.2 hentry)), if_pos hlinked]
  rfl

/-- Linking behind what is not linked fails. -/
theorem insertAfter_of_notLinked {point : InstructionRef} (ref : InstructionRef)
    {place : Instruction} (hplace : program.instructions.get? point = some place)
    (hunlinked : place.label = none) :
    insertAfter point ref program = .error .notLinked := by
  rw [insertAfter, Step.bind_of_ok (ask_of_ok (found_eq_ok.2 hplace)), hunlinked]
  rfl

/-- Linking behind another one what is linked already fails. -/
theorem insertAfter_of_linked {point ref : InstructionRef} {place entry : Instruction}
    {label : LabelRef} (hplace : program.instructions.get? point = some place)
    (hlabel : place.label = some label) (hentry : program.instructions.get? ref = some entry)
    (hlinked : entry.label.isSome) : insertAfter point ref program = .error .alreadyLinked := by
  rw [insertAfter, Step.bind_of_ok (ask_of_ok (found_eq_ok.2 hplace)), hlabel]
  show (ask (·.instruction ref) >>= _) program = _
  rw [Step.bind_of_ok (ask_of_ok (found_eq_ok.2 hentry)), if_pos hlinked]
  rfl

/-- Whoever has linked at the end of a chain has linked a free instruction to a label. -/
theorem free_of_pushBack {label : LabelRef} {ref : InstructionRef}
    (hrun : pushBack label ref program = .ok ((), after)) :
    ∃ entry ends, program.instructions.get? ref = some entry ∧ entry.label = none ∧
      program.labels.get? label = some ends := by
  obtain ⟨entry, middle, hask, hrest⟩ := Step.bind_eq_ok.1 hrun
  have hentry := found_eq_ok.1 (ask_eq_ok.1 hask).1
  obtain rfl := (ask_eq_ok.1 hask).2
  cases hlabel : entry.label with
  | some other =>
    have hlinked := pushBack_of_linked label hentry (by simp [hlabel])
    exact absurd (hlinked.symm.trans hrun) (by simp)
  | none =>
    simp only [hlabel, Option.isSome_none, Bool.false_eq_true, if_false] at hrest
    obtain ⟨ends, last, hask', -⟩ := Step.bind_eq_ok.1 hrest
    exact ⟨entry, ends, hentry, hlabel, found_eq_ok.1 (ask_eq_ok.1 hask').1⟩

/-- Whoever has linked behind an instruction has linked a free one behind one of a chain. -/
theorem free_of_insertAfter {point ref : InstructionRef}
    (hrun : insertAfter point ref program = .ok ((), after)) :
    ∃ place label entry, program.instructions.get? point = some place ∧
      place.label = some label ∧ program.instructions.get? ref = some entry ∧
      entry.label = none := by
  obtain ⟨place, middle, hask, hrest⟩ := Step.bind_eq_ok.1 hrun
  have hplace := found_eq_ok.1 (ask_eq_ok.1 hask).1
  obtain rfl := (ask_eq_ok.1 hask).2
  cases hlabel : place.label with
  | none => exact absurd ((insertAfter_of_notLinked ref hplace hlabel).symm.trans hrun) (by simp)
  | some label =>
    simp only [hlabel] at hrest
    obtain ⟨entry, last, hask', -⟩ := Step.bind_eq_ok.1 hrest
    have hentry := found_eq_ok.1 (ask_eq_ok.1 hask').1
    cases hother : entry.label with
    | none => exact ⟨place, label, entry, hplace, hlabel, hentry, hother⟩
    | some other =>
      have hlinked := insertAfter_of_linked hplace hlabel hentry (by simp [hother])
      exact absurd (hlinked.symm.trans hrun) (by simp)

/-- Linking a free instruction at the end of the chain of a label. -/
theorem pushBack_links (h : program.Links chains) {label : LabelRef} {ends : Label}
    (hends : program.labels.get? label = some ends) {ref : InstructionRef} {entry : Instruction}
    (hentry : program.instructions.get? ref = some entry) (hunlinked : entry.label = none) :
    Step.Yields (pushBack label ref) program fun _ after =>
      after.Links (Function.update chains label (chains label ++ [ref])) ∧
        program.Relinks label ref after := by
  have hyields := pushBack_yields (h.chained label ends hends) hentry (h.isFree hentry hunlinked)
  refine hyields.mono fun _ after hafter => ⟨?_, hafter.2⟩
  exact h.insert hentry hunlinked hafter.1 (by simp) hafter.2

/-- Linking a free instruction behind one of a chain. -/
theorem insertAfter_links (h : program.Links chains) {point ref : InstructionRef}
    {place entry : Instruction} {label : LabelRef}
    (hplace : program.instructions.get? point = some place) (hlabel : place.label = some label)
    (hentry : program.instructions.get? ref = some entry) (hunlinked : entry.label = none) :
    ∃ position, (chains label)[position]? = some point ∧
      Step.Yields (insertAfter point ref) program fun _ after =>
        after.Links
          (Function.update chains label ((chains label).insertIdx (position + 1) ref)) ∧
        program.Relinks label ref after := by
  have hmem := (h.mem_iff hplace).2 hlabel
  obtain ⟨position, hposition⟩ := List.getElem?_of_mem hmem
  have hlt := (List.getElem?_eq_some_iff.1 hposition).1
  have hyields := insertAfter_yields (h.chained_of_mem hmem) hposition hentry
    (h.isFree hentry hunlinked)
  refine ⟨position, hposition, hyields.mono fun _ after hafter => ⟨?_, hafter.2⟩⟩
  refine h.insert hentry hunlinked hafter.1 (fun other => ?_) hafter.2
  rw [List.mem_insertIdx (by omega), or_comm]

/-- Linking at the end of a chain fails exactly if the instruction is linked, and otherwise makes
that chain longer. -/
theorem pushBack_outcome (h : program.Links chains) {label : LabelRef} {ends : Label}
    (hends : program.labels.get? label = some ends) {ref : InstructionRef} {entry : Instruction}
    (hentry : program.instructions.get? ref = some entry) :
    ((∃ error, pushBack label ref program = .error error) ↔ ∃ other, ref ∈ chains other) ∧
      ∀ after, pushBack label ref program = .ok ((), after) →
        after.Links (Function.update chains label (chains label ++ [ref])) := by
  cases hlabel : entry.label with
  | none =>
    have hyields := pushBack_links h hends hentry hlabel
    refine ⟨⟨?_, ?_⟩, fun after hrun => (hyields.of_eq_ok hrun).1⟩
    · rintro ⟨error, herror⟩
      obtain ⟨answer, final, hrun, -⟩ := hyields
      exact absurd (herror.symm.trans hrun) (by simp)
    · rintro ⟨other, hmem⟩
      exact absurd (hlabel.symm.trans ((h.mem_iff hentry).1 hmem)) (by simp)
  | some other =>
    have herror := pushBack_of_linked label hentry (by simp [hlabel])
    refine ⟨⟨fun _ => ⟨other, (h.mem_iff hentry).2 hlabel⟩, fun _ => ⟨_, herror⟩⟩, ?_⟩
    intro after hrun
    exact absurd (herror.symm.trans hrun) (by simp)

/-- Linking behind an instruction fails exactly if that one is not linked or the other one is, and
otherwise puts the other one behind it. -/
theorem insertAfter_outcome (h : program.Links chains) {point ref : InstructionRef}
    {place entry : Instruction} (hplace : program.instructions.get? point = some place)
    (hentry : program.instructions.get? ref = some entry) :
    ((∃ error, insertAfter point ref program = .error error) ↔
        (∀ label, point ∉ chains label) ∨ ∃ other, ref ∈ chains other) ∧
      ∀ after, insertAfter point ref program = .ok ((), after) →
        ∃ label position, (chains label)[position]? = some point ∧ after.Links
          (Function.update chains label ((chains label).insertIdx (position + 1) ref)) := by
  cases hlabel : place.label with
  | none => -- the place is in no chain
    have herror := insertAfter_of_notLinked ref hplace hlabel
    refine ⟨⟨fun _ => .inl fun label hmem => ?_, fun _ => ⟨_, herror⟩⟩, fun after hrun => ?_⟩
    · exact absurd (hlabel.symm.trans ((h.mem_iff hplace).1 hmem)) (by simp)
    · exact absurd (herror.symm.trans hrun) (by simp)
  | some label =>
    have hmem := (h.mem_iff hplace).2 hlabel
    cases hother : entry.label with
    | none =>
      obtain ⟨position, hposition, hyields⟩ := insertAfter_links h hplace hlabel hentry hother
      refine ⟨⟨?_, ?_⟩, fun after hrun => ⟨label, position, hposition, (hyields.of_eq_ok hrun).1⟩⟩
      · rintro ⟨error, herror⟩
        obtain ⟨answer, final, hrun, -⟩ := hyields
        exact absurd (herror.symm.trans hrun) (by simp)
      · rintro (hout | ⟨other, hin⟩)
        · exact absurd hmem (hout label)
        · exact absurd (hother.symm.trans ((h.mem_iff hentry).1 hin)) (by simp)
    | some other =>
      have herror := insertAfter_of_linked hplace hlabel hentry (by simp [hother])
      refine ⟨⟨fun _ => .inr ⟨other, (h.mem_iff hentry).2 hother⟩, fun _ => ⟨_, herror⟩⟩, ?_⟩
      intro after hrun
      exact absurd (herror.symm.trans hrun) (by simp)

/-! ## Appending to functions -/

/-- A label that is asked for is there already, or it is new. -/
theorem labelNamed_cases {function : FunctionRef} {name : String} {label : LabelRef}
    (hrun : labelNamed function name program = .ok (label, after)) :
    ∃ entry, program.functions.get? function = some entry ∧
      (entry.labelNames.find? name = some label ∧ program = after ∨
        entry.labelNames.find? name = none ∧ { program with
          labels := (program.labels.allocWith fun self => { self, name, function }).2
          functions := program.functions.modify function fun entry => { entry with
            labels := entry.labels ++ [program.labels.nextRef]
            labelNames := entry.labelNames.insert name program.labels.nextRef } } = after) := by
  obtain ⟨found?, middle, hask, hrest⟩ := Step.bind_eq_ok.1 hrun
  rw [(ask_eq_ok.1 hask).2] at hrest
  have hnamed := (ask_eq_ok.1 hask).1
  cases hfunction : program.functions.get? function with
  | none =>
    rw [labelNamed?, Program.function, hfunction] at hnamed
    exact absurd hnamed (by simp [found, bind, Except.bind])
  | some entry =>
    rw [labelNamed?, show program.function function = .ok entry from found_eq_ok.2 hfunction]
      at hnamed
    -- the label is looked up in the entry of the function
    have hfind : entry.labelNames.find? name = found? := Except.ok.inj hnamed
    refine ⟨entry, rfl, ?_⟩
    cases found? with
    | some found =>
      obtain ⟨rfl, rfl⟩ : found = label ∧ program = after := by simpa using hrest
      exact .inl ⟨hfind, rfl⟩
    | none =>
      obtain ⟨added, labelled, hadd, hlast⟩ := Step.bind_eq_ok.1 hrest
      obtain ⟨⟨⟩, final, hupdate, hanswer⟩ := Step.bind_eq_ok.1 hlast
      obtain ⟨old, -, rfl⟩ := exists_of_updateFunction hupdate
      obtain ⟨-, rfl⟩ : added = label ∧ _ = after := by simpa using hanswer
      obtain ⟨rfl, rfl⟩ : program.labels.nextRef = added ∧ _ = labelled := by
        simpa [addLabel, Arena.allocWith] using hadd
      exact .inr ⟨hfind, rfl⟩

/-- Appending an instruction finds or makes its label, links it there, and then sets the entry. -/
theorem append_parts (h : program.Links chains) {function : FunctionRef} {name : String}
    {ref : InstructionRef} (hrun : append function name ref program = .ok ((), after)) :
    ∃ label labelled pushed, labelNamed function name program = .ok (label, labelled) ∧
      labelled.Links chains ∧ labelled.Relinks label ref pushed ∧
      pushed.Links (Function.update chains label (chains label ++ [ref])) ∧
      { pushed with functions := pushed.functions.modify function fun entry =>
        { entry with entry := entry.entry.or (some ref) } } = after := by
  obtain ⟨label, labelled, hlabel, hrest⟩ := Step.bind_eq_ok.1 hrun
  obtain ⟨⟨⟩, pushed, hpush, hupdate⟩ := Step.bind_eq_ok.1 hrest
  obtain ⟨entry, -, rfl⟩ := exists_of_updateFunction hupdate
  have hlabelled : labelled.Links chains := by
    obtain ⟨found, -, ⟨-, rfl⟩ | ⟨-, rfl⟩⟩ := labelNamed_cases hlabel
    · exact h
    · exact h.addLabel ⟨rfl, rfl⟩ rfl rfl
  obtain ⟨instruction, ends, hinstruction, hunlinked, hends⟩ := free_of_pushBack hpush
  obtain ⟨hlinks, hrelinks⟩ :=
    (pushBack_links hlabelled hends hinstruction hunlinked).of_eq_ok hpush
  exact ⟨label, labelled, pushed, hlabel, hlabelled, hrelinks, hlinks, rfl⟩

/-- Finding or making a label changes labels and functions at most. -/
theorem labelNamed_rest {function : FunctionRef} {name : String} {label : LabelRef}
    (hrun : labelNamed function name program = .ok (label, after)) :
    after = { program with labels := after.labels, functions := after.functions } := by
  obtain ⟨entry, -, ⟨-, rfl⟩ | ⟨-, rfl⟩⟩ := labelNamed_cases hrun <;> rfl

/-- Appending an instruction puts it at the end of the chain of one label. -/
theorem exists_links_of_append (h : program.Links chains) {function : FunctionRef} {name : String}
    {ref : InstructionRef} (hrun : append function name ref program = .ok ((), after)) :
    ∃ label, after.Links (Function.update chains label (chains label ++ [ref])) ∧
      after.types = program.types ∧ after.typeNames = program.typeNames := by
  obtain ⟨label, labelled, pushed, hlabel, -, hrelinks, hlinks, rfl⟩ := append_parts h hrun
  refine ⟨label, hlinks.congr rfl rfl, ?_, ?_⟩ <;>
    rw [hrelinks.rest, labelNamed_rest hlabel]

/-- The value of a global is there already, or it is new. -/
theorem globalValue_cases {ref : GlobalRef} {value : ValueRef}
    (hrun : globalValue ref program = .ok (value, after)) :
    ∃ entry, program.globals.get? ref = some entry ∧
      (program = after ∨ entry.result = none ∧ { program with
        values := (program.values.alloc (.global ref)).2
        globals := program.globals.modify ref fun global =>
          { global with result := some value } } = after) := by
  obtain ⟨entry, middle, hask, hrest⟩ := Step.bind_eq_ok.1 hrun
  refine ⟨entry, found_eq_ok.1 (ask_eq_ok.1 hask).1, ?_⟩
  rw [(ask_eq_ok.1 hask).2] at hrest
  cases hresult : entry.result with
  | some old =>
    rw [hresult] at hrest
    obtain ⟨-, rfl⟩ : old = value ∧ program = after := by simpa using hrest
    exact .inl rfl
  | none =>
    rw [hresult] at hrest
    obtain ⟨added, valued, hadd, hlast⟩ := Step.bind_eq_ok.1 hrest
    obtain ⟨-, rfl⟩ := Prod.mk.inj (Except.ok.inj hadd)
    obtain ⟨⟨⟩, final, hupdate, hanswer⟩ := Step.bind_eq_ok.1 hlast
    obtain ⟨found, known, hknown, hmodify⟩ := Step.bind_eq_ok.1 hupdate
    rw [(ask_eq_ok.1 hknown).2, Step.modify_apply] at hmodify
    obtain ⟨-, rfl⟩ := Prod.mk.inj (Except.ok.inj hmodify)
    obtain ⟨rfl, rfl⟩ : added = value ∧ _ = after := by simpa using hanswer
    exact .inr ⟨rfl, rfl⟩

/-- A revision leaves types, labels and instructions alone. -/
theorem rest_of_revision (hrevision : program.Revision after) :
    after.types = program.types ∧ after.typeNames = program.typeNames ∧
      after.labels = program.labels ∧ after.instructions = program.instructions := by
  cases hrevision with
  | globalValue hentry hrun =>
    obtain ⟨entry, -, rfl | ⟨-, rfl⟩⟩ := globalValue_cases hrun <;> exact ⟨rfl, rfl, rfl, rfl⟩
  | declare hsignature hnew hrun =>
    obtain ⟨-, rfl⟩ := Prod.mk.inj (Except.ok.inj
      ((declareFunction_of_none hsignature hnew).symm.trans hrun))
    exact ⟨rfl, rfl, rfl, rfl⟩
  | setParams hentry hrun =>
    obtain ⟨entry, -, rfl⟩ := exists_of_updateFunction hrun
    exact ⟨rfl, rfl, rfl, rfl⟩
  | define htype hnew hrun =>
    obtain ⟨-, rfl⟩ := Prod.mk.inj (Except.ok.inj ((defineGlobal_of_none _ hnew).symm.trans hrun))
    exact ⟨rfl, rfl, rfl, rfl⟩

/-- What changes besides growing touches one chain at most, and no type. -/
theorem exists_links_of_change (h : program.Links chains) (hchange : program.Change after) :
    (∃ chains', after.Links chains') ∧ after.types = program.types ∧
      after.typeNames = program.typeNames := by
  cases hchange with
  | revision hrevision =>
    obtain ⟨htypes, hnames, hlabels, hinstructions⟩ := rest_of_revision hrevision
    exact ⟨⟨chains, h.congr hlabels hinstructions⟩, htypes, hnames⟩
  | append hrun =>
    obtain ⟨label, hlinks, htypes⟩ := exists_links_of_append h hrun
    exact ⟨⟨_, hlinks⟩, htypes⟩
  | pushBack hrun =>
    obtain ⟨entry, ends, hentry, hunlinked, hends⟩ := free_of_pushBack hrun
    obtain ⟨hlinks, hrelinks⟩ := (pushBack_links h hends hentry hunlinked).of_eq_ok hrun
    exact ⟨⟨_, hlinks⟩, by rw [hrelinks.rest], by rw [hrelinks.rest]⟩
  | insertAfter hrun =>
    obtain ⟨place, label, entry, hplace, hlabel, hentry, hunlinked⟩ := free_of_insertAfter hrun
    obtain ⟨position, -, hyields⟩ := insertAfter_links h hplace hlabel hentry hunlinked
    obtain ⟨hlinks, hrelinks⟩ := hyields.of_eq_ok hrun
    exact ⟨⟨_, hlinks⟩, by rw [hrelinks.rest], by rw [hrelinks.rest]⟩

end Edit

/-! ## Runs of requests -/

/-- The types of a program are in order, and its links are sequences. -/
structure Program.Linked (program : Program) : Prop extends program.Interned where
  /-- There are chains. -/
  links : ∃ chains, program.Links chains

namespace Request

open Program

/-- In the initial program there is nothing to link. -/
theorem links_initial : Program.initial.Links fun _ => [] := by
  have hlabels : Program.initial.labels.entries.size = 0 := by decide +kernel
  have hinstructions : Program.initial.instructions.entries.size = 0 := by decide +kernel
  refine ⟨fun label entry hentry => ?_, fun label hnone => rfl, fun ref entry hentry => ?_⟩
  · have hlt := Arena.lt_size_of_get? hentry
    rw [Arena.size, hlabels] at hlt
    exact absurd hlt (Nat.not_lt_zero _)
  · have hlt := Arena.lt_size_of_get? hentry
    rw [Arena.size, hinstructions] at hlt
    exact absurd hlt (Nat.not_lt_zero _)

/-- Whatever requests have built a program, its links are sequences. -/
theorem linked_of_runAll {requests : List Request} {program : Program}
    (hrun : runAll requests Program.initial = .ok ((), program)) : program.Linked := by
  have hinitial : Program.initial.Linked :=
    ⟨Program.shownBy_initial.interned, _, links_initial⟩
  refine property_of_runAll Program.Linked hinitial (fun program h => h.toInterned) ?_ ?_ hrun
  · intro program after h hdevelops
    obtain ⟨chains, hlinks⟩ := h.links
    exact ⟨hdevelops.interned h.toInterned, chains, hlinks.grows hdevelops.toGrows⟩
  · intro program after h hchange
    obtain ⟨chains, hlinks⟩ := h.links
    obtain ⟨hafter, htypes, hnames⟩ := Edit.exists_links_of_change hlinks hchange
    exact ⟨h.toInterned.congr htypes hnames, hafter⟩

/-- **Links are sequences.** In every program that requests have built, the links are one sequence
of instructions for each label: no instruction is twice in one or in two of them. Linking at the end
of a chain fails exactly if the instruction is linked already, and linking behind another one
exactly if that one is not linked or the instruction is; otherwise the instruction is inserted at
its place into one sequence, and the others stay. -/
theorem links_of_runAll {requests : List Request} {program : Program}
    (hrun : runAll requests Program.initial = .ok ((), program)) :
    ∃ chains, program.Links chains ∧ (∀ label, (chains label).Nodup) ∧
      (∀ left right ref, ref ∈ chains left → ref ∈ chains right → left = right) ∧
      (∀ label ref, label.index < program.labels.size → ref.index < program.instructions.size →
        ((∃ error, Edit.pushBack label ref program = .error error) ↔
          ∃ other, ref ∈ chains other) ∧
        ∀ after, Edit.pushBack label ref program = .ok ((), after) →
          after.Links (Function.update chains label (chains label ++ [ref]))) ∧
      ∀ point ref, point.index < program.instructions.size →
        ref.index < program.instructions.size →
        ((∃ error, Edit.insertAfter point ref program = .error error) ↔
          (∀ label, point ∉ chains label) ∨ ∃ other, ref ∈ chains other) ∧
        ∀ after, Edit.insertAfter point ref program = .ok ((), after) →
          ∃ label position, (chains label)[position]? = some point ∧ after.Links
            (Function.update chains label ((chains label).insertIdx (position + 1) ref)) := by
  obtain ⟨chains, hlinks⟩ := (linked_of_runAll hrun).links
  refine ⟨chains, hlinks, hlinks.nodup, fun left right ref => hlinks.label_unique,
    fun label ref hlabel href => ?_, fun point ref hpoint href => ?_⟩
  · -- a handle below the size of its arena has an entry
    obtain ⟨ends, hends⟩ :=
      Option.isSome_iff_exists.1 ((Arena.get?_isSome_iff program.labels label).2 hlabel)
    obtain ⟨entry, hentry⟩ :=
      Option.isSome_iff_exists.1 ((Arena.get?_isSome_iff program.instructions ref).2 href)
    exact Edit.pushBack_outcome hlinks hends hentry
  · obtain ⟨place, hplace⟩ :=
      Option.isSome_iff_exists.1 ((Arena.get?_isSome_iff program.instructions point).2 hpoint)
    obtain ⟨entry, hentry⟩ :=
      Option.isSome_iff_exists.1 ((Arena.get?_isSome_iff program.instructions ref).2 href)
    exact Edit.insertAfter_outcome hlinks hplace hentry

/-- Three instructions, the last of which is linked between the others. -/
theorem links_between : ∃ program chains, runAll [.addInstruction (.jump ""),
    .addInstruction (.jump ""), .addInstruction (.jump ""), .append ⟨0⟩ "" ⟨0⟩,
    .pushBack ⟨0⟩ ⟨1⟩, .insertAfter ⟨0⟩ ⟨2⟩] Program.initial = .ok ((), program) ∧
      program.Links chains ∧ chains ⟨0⟩ = [⟨0⟩, ⟨2⟩, ⟨1⟩] ∧
      ∃ error, Edit.insertAfter ⟨0⟩ ⟨0⟩ program = .error error := by
  have hbuilt : Step.leadsTo (runAll [.addInstruction (.jump ""), .addInstruction (.jump ""),
      .addInstruction (.jump ""), .append ⟨0⟩ "" ⟨0⟩, .pushBack ⟨0⟩ ⟨1⟩, .insertAfter ⟨0⟩ ⟨2⟩])
      Program.initial (fun program => program.instructions.size == 3 && program.labels.size == 1 &&
        (program.chain ⟨0⟩).toOption == some [⟨0⟩, ⟨2⟩, ⟨1⟩]) = true := by decide +kernel
  obtain ⟨⟨⟩, program, hrun, htest⟩ := Step.exists_of_leadsTo hbuilt
  simp only [Bool.and_eq_true, beq_iff_eq] at htest
  obtain ⟨⟨hinstructions, hlabels⟩, hchain⟩ := htest
  obtain ⟨chains, hlinks, -, -, -, hinsert⟩ := links_of_runAll hrun
  obtain ⟨ends, hends⟩ := Option.isSome_iff_exists.1
    ((Arena.get?_isSome_iff program.labels ⟨0⟩).2 (by simp [hlabels]))
  rw [(hlinks.chained ⟨0⟩ ends hends).chain_eq] at hchain
  have hchains : chains ⟨0⟩ = [⟨0⟩, ⟨2⟩, ⟨1⟩] := Option.some.inj hchain
  have hoccupied := (hinsert ⟨0⟩ ⟨0⟩ (by simp [hinstructions]) (by simp [hinstructions])).1
  exact ⟨program, chains, hrun, hlinks, hchains, hoccupied.2 (.inr ⟨⟨0⟩, by simp [hchains]⟩)⟩

end Request

end ChainIR
