import Mathlib
import ChainIR.Proofs.Outline.Builtin
import ChainIR.Proofs.Reading.Sound

/-! # What a line does to the outline

Outside of functions a line declares a function, opens its definition or defines a global, and in
a function it appends a statement; the outline of the program changes accordingly. -/

namespace ChainIR

/-! ## Outlines with a function -/

namespace Outline

variable {σ : Type}

/-- The outline with a function of the given prototype. -/
def including (outline : Outline σ) (prototype : Prototype) : Outline σ :=
  if prototype ∈ outline.prototypes then outline else outline.declare prototype

/-- The functions of the outline are the ones of its prototypes. -/
theorem length_prototypes (outline : Outline σ) :
    outline.prototypes.length = outline.routines.length := by
  rw [prototypes, List.length_map]

/-- A prototype at some place is that of the function there. -/
theorem exists_routine_of_prototype {outline : Outline σ} {index : Nat} {prototype : Prototype}
    (h : outline.prototypes[index]? = some prototype) :
    ∃ routine, outline.routines[index]? = some routine ∧ routine.prototype = prototype := by
  rw [prototypes, List.getElem?_map] at h
  exact Option.map_eq_some_iff.1 h

/-- A function at some place has its prototype there. -/
theorem prototype_of_routine {outline : Outline σ} {index : Nat} {routine : Routine σ}
    (h : outline.routines[index]? = some routine) :
    outline.prototypes[index]? = some routine.prototype := by
  rw [prototypes, List.getElem?_map, h, Option.map_some]

/-- A prototype stands at one place. -/
theorem index_unique {outline : Outline σ} (hnodup : outline.prototypes.Nodup) {left right : Nat}
    {prototype : Prototype} (hleft : outline.prototypes[left]? = some prototype)
    (hright : outline.prototypes[right]? = some prototype) : left = right :=
  have hlt := (List.getElem?_eq_some_iff.1 hleft).1
  (List.getElem?_inj hlt hnodup).1 (hleft.trans hright.symm)

end Outline

/-! ## Steps that change the outline -/

namespace LineReader

variable {state : LineState} {outline : Outline (Statement Callee)}
  (hshown : state.program.ShownBy outline)

include hshown

/-- The function of a header is declared if it was not. -/
theorem headerOf_yields {result : TypeRef} {params : List (TypeRef × String)}
    (prototype : Prototype) (hresult : state.program.typeName result = .ok prototype.result)
    (hparams : List.Forall₂ (fun param name => state.program.typeName param.1 = .ok name) params
      prototype.params) :
    Step.Yields (headerOf result prototype.name params prototype.variadic) state
      fun header after =>
        after = { state with program := after.program } ∧
          after.program.ShownBy (outline.including prototype) ∧
          header.name = prototype.name ∧ header.params = params.map Prod.snd ∧
          after.program.typeName header.type = .ok prototype.type ∧
          (outline.including prototype).prototypes[header.function.index]? = some prototype := by
  have hnames : List.Forall₂ (fun param name => state.program.typeName param = .ok name)
      (Signature.mk result (params.map Prod.fst) prototype.variadic).params prototype.params :=
    List.forall₂_map_left_iff.2 hparams
  refine (edit_yields (Edit.functionType_prototype hshown.interned hresult hnames rfl)).bind
    fun type typed htyped => ?_
  obtain ⟨htyped, hgrows, htype⟩ := htyped
  have hshown' := hshown.grows hgrows
  have hfound := hshown'.functionOfType?_eq htype
  cases hindex : outline.prototypes.findIdx? (· == prototype) with
  | none => -- a new function, behind all others
    rw [hindex] at hfound
    have hnew : prototype ∉ outline.prototypes := fun hmem => by
      simpa using List.findIdx?_eq_none_iff.1 hindex prototype hmem
    refine .bind_of_ok (ask_of_ok hfound) ?_
    refine (edit_yields (hshown'.declareFunction_yields htype hnew)).bind
      fun function after hafter => ?_
    obtain ⟨hafter, rfl, hdeclared, hextends⟩ := hafter
    rw [Outline.including, if_neg hnew]
    refine .pure ⟨?_, hdeclared, rfl, rfl, hextends.typeName htype.typeName, ?_⟩
    · rw [hafter, htyped]
    · rw [Outline.prototypes_declare, ← outline.length_prototypes, List.getElem?_concat_length]
  | some index => -- a function that was declared before
    rw [hindex] at hfound
    obtain ⟨hlt, hequal, -⟩ := List.findIdx?_eq_some_iff_getElem.1 hindex
    have hprototype : outline.prototypes[index]? = some prototype := by
      rw [List.getElem?_eq_getElem hlt, eq_of_beq hequal]
    refine .bind_of_ok (ask_of_ok hfound) (.pure ?_)
    rw [Outline.including, if_pos (List.mem_of_getElem? hprototype)]
    exact ⟨htyped, hshown', rfl, rfl, htype.typeName, hprototype⟩

/-- A declaration names the parameters of a function that has no names for them. -/
theorem declare_yields (position : Position) {header : Header} {type : String}
    {routine : Routine (Statement Callee)}
    (htype : state.program.typeName header.type = .ok type)
    (hroutine : outline.routines[header.function.index]? = some routine) :
    Step.Yields (declare position header) state fun outcome after =>
      after = { state with program := after.program } ∧ outcome.1 = position ∧
        after.program.ShownBy (if routine.params.isEmpty then
          outline.modify header.function (·.withParams header.params) else outline) := by
  obtain ⟨entry, hentry, -, hparams, -⟩ := hshown.function_of_routine hroutine
  refine .bind_of_ok (ask_of_ok htype) (.bind_of_ok (ask_of_ok (Program.found_eq_ok.2 hentry)) ?_)
  rw [hparams]
  split
  · have hlt := (List.getElem?_eq_some_iff.1 hroutine).1
    refine (edit_yields (hshown.setParams_yields hlt header.params)).bind fun _ after hafter => ?_
    exact .pure ⟨hafter.1, rfl, hafter.2.1⟩
  · exact .pure ⟨rfl, rfl, hshown⟩

/-- A definition is rejected if the function has one, and else names its parameters. -/
theorem define_yields {header : Header} {type : String} {routine : Routine (Statement Callee)}
    (htype : state.program.typeName header.type = .ok type)
    (hroutine : outline.routines[header.function.index]? = some routine)
    (hblocks : routine.blocks = []) :
    Step.Yields (define header) state fun outcome after =>
      after = { state with program := after.program } ∧
        outcome.1 = ⟨⟨some header.function, ""⟩, some header.name⟩ ∧
        after.program.ShownBy (outline.modify header.function (·.withParams header.params)) := by
  obtain ⟨entry, hentry, -, -, hentered⟩ := hshown.function_of_routine hroutine
  rw [hblocks] at hentered
  refine .bind_of_ok (ask_of_ok (Program.found_eq_ok.2 hentry)) ?_
  rw [if_neg (by simp [hentered])]
  have hlt := (List.getElem?_eq_some_iff.1 hroutine).1
  refine .bind_of_ok (ask_of_ok htype) ?_
  refine (edit_yields (hshown.setParams_yields hlt header.params)).bind fun _ after hafter => ?_
  exact .pure ⟨hafter.1, rfl, hafter.2.1⟩

/-- A global is added to the outline. -/
theorem bindGlobal_yields (position : Position) {name : String} {initial : Constant}
    (htype : state.program.typeName initial.type = .ok initial.literal.typeName)
    (hnew : state.program.globalNamed? name = none) :
    Step.Yields (bindGlobal position name initial) state fun outcome after =>
      after = { state with program := after.program } ∧ outcome.1 = position ∧
        after.program.ShownBy (outline.define name initial.literal) := by
  have htext : state.program.constantText initial =
      .ok (spaced ["const", initial.literal.typeName, initial.literal.text]) := by
    rw [Program.constantText, Program.constantWords, htype]
    rfl
  refine .bind_of_ok (ask_of_ok htext) ?_
  refine (edit_yields (hshown.defineGlobal_yields htype hnew)).bind fun _ after hafter => ?_
  exact .pure ⟨hafter.1, rfl, hafter.2.1⟩

/-- A statement is appended at the cursor. -/
theorem append_yields {position : Position} (line : Nat) {function : FunctionRef}
    (hcursor : position.cursor.function = some function)
    (hfunction : function.index < outline.routines.length) {ref : InstructionRef}
    {prototypes : List Prototype} {statement : Statement Callee}
    (hholds : state.program.Holds prototypes ref statement) :
    Step.Yields (append position line ref) state fun outcome after =>
      after = { state with program := after.program } ∧ outcome.1 = position ∧
        after.program.ShownBy
          (outline.modify function (·.append position.cursor.label statement)) := by
  obtain ⟨entry, hentry, hunlinked⟩ := hholds.entry
  refine .bind_of_ok (ask_of_ok hholds.is.text_eq) ?_
  have happend : Step.Yields (position.cursor.append ref) state.program fun result after =>
      result = .ok ref ∧
        after.ShownBy (outline.modify function (·.append position.cursor.label statement)) := by
    rw [Cursor.append, hcursor]
    refine (hshown.append_yields hfunction position.cursor.label hentry hunlinked hholds.is).bind
      fun _ after hafter => ?_
    exact .pure ⟨rfl, hafter.1⟩
  refine (edit_yields happend).bind fun result after hafter => ?_
  obtain ⟨hafter, rfl, hshown'⟩ := hafter
  exact .pure ⟨hafter, rfl, hshown'⟩

end LineReader

end ChainIR
