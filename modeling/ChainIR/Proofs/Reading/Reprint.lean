import Mathlib
import ChainIR.Proofs.Reading.Spelled

/-! # Writing and reading again

A program that has been read is written with each body at the place where its function was
declared. It can be read again exactly if every call finds a callee among the functions that are
declared up to there (`Outline.CallsVisible`), and then it is written as before
(`Reading.reprint`). A call of a function that is declared after the caller is lost
(`Reading.reprint_forward`). -/

namespace ChainIR

/-! ## Calls that are visible -/

/-- Calls of a written statement have a callee. -/
theorem Statement.resolve_isSome_iff {prototypes : List Prototype} {statement : Statement String} :
    (statement.resolve prototypes).isSome ↔ ∀ name arguments,
      statement.call? = some (name, arguments) →
        (resolveIn prototypes name (arguments.map Operand.type)).isSome := by
  have hproducer : ∀ producer : Producer String, (producer.resolve prototypes).isSome ↔
      ∀ name arguments, producer.call? = some (name, arguments) →
        (resolveIn prototypes name (arguments.map Operand.type)).isSome := by
    intro producer
    cases producer <;> simp [Producer.resolve, Producer.call?]
  cases statement with
  | produce producer => simpa [resolve, call?] using hproducer producer
  | assign name producer => simpa [resolve, call?] using hproducer producer
  | set | ret | store | jump | branch => simp [resolve, call?]

/-- Leaving out the callee leaves its name. -/
theorem Statement.call?_written (statement : Statement Callee) :
    statement.written.call? = statement.call?.map fun call => (call.1.name, call.2) := by
  cases statement with
  | produce producer => cases producer <;> rfl
  | assign name producer => cases producer <;> rfl
  | set | ret | store | jump | branch => rfl

/-- Every call has a callee among the builtin functions and the functions up to the one that it
stands in. -/
def Outline.CallsVisible (outline : Outline (Statement Callee)) : Prop :=
  ∀ index routine, outline.routines[index]? = some routine →
    ∀ block ∈ routine.blocks, ∀ statement ∈ block.statements,
      ∀ callee arguments, statement.call? = some (callee, arguments) →
        (resolveIn (outline.prototypes.take (visible index)) callee.name
          (arguments.map Operand.type)).isSome

namespace Outline

/-- Changing the statements of an outline changes no prototype. -/
@[simp] theorem prototypes_map {σ τ : Type} (outline : Outline σ) (change : σ → τ) :
    (outline.map change).prototypes = outline.prototypes := by
  rw [prototypes, prototypes, map, List.map_map]
  rfl

/-- A written outline can be read back if its calls are visible. -/
theorem reread_isSome_iff {outline : Outline (Statement Callee)} :
    (outline.map Statement.written).reread.isSome ↔ outline.CallsVisible := by
  rw [reread, Option.isSome_map, resolveFrom_isSome_iff, prototypes_map]
  simp only [Nat.zero_add, Routine.resolve_isSome_iff, Statement.resolve_isSome_iff]
  constructor
  · intro h index routine hroutine block hblock statement hstatement callee arguments hcall
    refine h index (routine.map Statement.written) ?_ (block.map Statement.written) ?_
      statement.written ?_ callee.name arguments ?_
    · rw [map, List.getElem?_map, hroutine, Option.map_some]
    · exact List.mem_map_of_mem hblock
    · exact List.mem_map_of_mem hstatement
    · rw [Statement.call?_written, hcall, Option.map_some]
  · intro h index routine hroutine block hblock statement hstatement name arguments hcall
    rw [map, List.getElem?_map] at hroutine
    obtain ⟨shown, hshown, rfl⟩ := Option.map_eq_some_iff.1 hroutine
    obtain ⟨shownBlock, hshownBlock, rfl⟩ := List.mem_map.1 hblock
    obtain ⟨shownStatement, hshownStatement, rfl⟩ := List.mem_map.1 hstatement
    rw [Statement.call?_written] at hcall
    obtain ⟨⟨callee, arguments'⟩, hcallee, hpair⟩ := Option.map_eq_some_iff.1 hcall
    obtain ⟨rfl, rfl⟩ := Prod.mk.inj hpair
    exact h index shown hshown shownBlock hshownBlock shownStatement hshownStatement callee
      arguments' hcallee

end Outline

namespace Reading

/-! ## Reading again -/

/-- The text of a program with names that can be read back is accepted exactly if every call has a
callee among the builtin functions and the functions up to the one that it stands in, and then it
is written as before. -/
theorem ofText_text {program : Program} {outline : Outline (Statement Callee)}
    (hshown : program.ShownBy outline) (hspelled : program.Spelled IsTarget)
    (hbuiltins : builtinPrototypes <+: outline.prototypes) {text : String}
    (htext : program.text = .ok text) :
    ((∃ again, (ofText text).result = .ok again) ↔ outline.CallsVisible) ∧
      ∀ again, (ofText text).result = .ok again → again.text = .ok text := by
  have hreadable := hshown.readable hspelled hbuiltins
  obtain rfl : (outline.map Statement.written).text = text :=
    Except.ok.inj (hshown.text_eq.symm.trans htext)
  have hdecides := ofText_decides hreadable
  rw [← Outline.reread_isSome_iff]
  cases hreread : (outline.map Statement.written).reread with
  | some resolved =>
    rw [hreread] at hdecides
    obtain ⟨again, hresult, hshown'⟩ := hdecides
    refine ⟨⟨fun _ => rfl, fun _ => ⟨again, hresult⟩⟩, fun other hother => ?_⟩
    obtain rfl : again = other := Except.ok.inj (hresult.symm.trans hother)
    rw [hshown'.text_eq, Outline.text_reread hreread]
  | none =>
    rw [hreread] at hdecides
    obtain ⟨failure, hresult⟩ := hdecides
    have hnone : ∀ again, (ofText (outline.map Statement.written).text).result ≠ .ok again := by
      intro again hagain
      rw [hresult] at hagain
      exact nomatch hagain
    exact ⟨⟨fun ⟨again, hagain⟩ => absurd hagain (hnone again), fun h => nomatch h⟩,
      fun again hagain => absurd hagain (hnone again)⟩

/-- **A program that has been read is read again from its text exactly if no call looks ahead.** If
its names can be read back, its text is accepted exactly if every call has a callee among the
builtin functions and the functions up to the one that it stands in; the program that is then read
is written as before. -/
theorem reprint {source : String} {program : Program}
    (hread : (ofText source).result = .ok program) (hspelled : program.Spelled IsTarget) :
    ∃ outline text, program.ShownBy outline ∧ program.text = .ok text ∧
      ((∃ again, (ofText text).result = .ok again) ↔ outline.CallsVisible) ∧
      ∀ again, (ofText text).result = .ok again → again.text = .ok text := by
  obtain ⟨outline, hshown, horderly⟩ := exists_outline_of_ok hread
  exact ⟨outline, _, hshown, hshown.text_eq,
    ofText_text hshown hspelled horderly.builtins hshown.text_eq⟩

/-- A source with a call of a function that is declared after the caller. -/
def forwardSource : String :=
  "dec num f num a\ndec num g num a\ndef num f num a\ncall g %a num\nenddef\n"

/-- Whether the lines of a program are rejected as a source. -/
def rejectsLines (program : Program) : Bool :=
  match program.lines with
  | .ok lines => (lines.all fun line => !line.toList.contains '\n') &&
      match (ofSource (lines.map fun line => .text line.toList)).result with
      | .ok _ => false
      | .error _ => true
  | .error _ => false

/-- A program whose lines are rejected has a text that is rejected. -/
theorem exists_text_of_rejectsLines {program : Program} (h : rejectsLines program) :
    ∃ text, program.text = .ok text ∧ ∀ again, (ofText text).result ≠ .ok again := by
  rw [rejectsLines] at h
  split at h
  · next lines hlines =>
    rw [Bool.and_eq_true, List.all_eq_true] at h
    obtain ⟨hfeeds, hrejected⟩ := h
    have hsource : Source.ofText (String.join (lines.map (· ++ "\n"))) =
        lines.map fun line => .text line.toList := by
      apply Source.ofText_join
      intro line hline
      simpa using hfeeds line hline
    refine ⟨String.join (lines.map (· ++ "\n")), ?_, ?_⟩
    · rw [Program.text, hlines]
      rfl
    · intro again hagain
      rw [ofText, hsource] at hagain
      rw [hagain] at hrejected
      exact absurd hrejected Bool.false_ne_true
  · exact absurd h Bool.false_ne_true

/-- A call of a function that is declared after the caller is not read again. -/
theorem reprint_forward : ∃ program text, (ofText forwardSource).result = .ok program ∧
    program.Spelled IsTarget ∧ program.text = .ok text ∧ (∀ again, (ofText text).result ≠ .ok again) ∧
    ∃ outline, program.ShownBy outline ∧ ¬ outline.CallsVisible := by
  have hlost : accepts forwardSource fun program =>
      program.spelledSimply && rejectsLines program := by decide +kernel
  obtain ⟨program, hread, htest⟩ := exists_of_accepts hlost
  rw [Bool.and_eq_true] at htest
  have hspelled := Program.spelled_of_spelledSimply htest.1
  obtain ⟨text, htext, hrejected⟩ := exists_text_of_rejectsLines htest.2
  obtain ⟨outline, text', hshown, htext', haccepted, -⟩ := reprint hread hspelled
  obtain rfl : text = text' := Except.ok.inj (htext.symm.trans htext')
  refine ⟨program, text, hread, hspelled, htext, hrejected, outline, hshown, fun hvisible => ?_⟩
  obtain ⟨again, hagain⟩ := haccepted.2 hvisible
  exact hrejected again hagain

end Reading

end ChainIR
