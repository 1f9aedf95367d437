import Mathlib
import ChainIR.Program.Cursor
import ChainIR.Program.Operand
import ChainIR.Proofs.Outline.Edits
import ChainIR.Proofs.Types.Denotation

/-! # Programs that are built from outside

A program is built by requests (`Request`), one after the other: for types, values, instructions,
functions and globals, and for places in chains. A request that succeeds lets the program grow,
and then makes one change at most (`Program.Change`), whose conditions have been met
(`Request.exists_change`). So what the initial program has, and what neither growing nor a change
destroys, every program has that requests have built (`Request.property_of_runAll`). -/

namespace ChainIR

/-! ## Requests -/

/-- A request to a program. -/
inductive Request
  /-- Ask for a type. -/
  | getType (request : TypeRequest)
  /-- Create a register as an operand. -/
  | addRegister (name : String) (type : TypeRef)
  /-- Create a pointer to a global as an operand. -/
  | addGlobalPointer (name : String) (type : TypeRef)
  /-- Create a constant as an operand. -/
  | addConstant (literal : Literal)
  /-- Ask for the value of an instruction. -/
  | getResult (instruction : InstructionRef)
  /-- Ask for the value of a global. -/
  | getGlobal (global : GlobalRef)
  /-- Create an instruction. -/
  | addInstruction (operation : Operation)
  /-- Declare a function. -/
  | declare (name : String) (type : TypeRef)
  /-- Name the parameters of a function. -/
  | setParams (function : FunctionRef) (params : List String)
  /-- Define a global. -/
  | define (name : String) (literal : Literal)
  /-- Append an instruction to a label of a function. -/
  | append (function : FunctionRef) (label : String) (instruction : InstructionRef)
  /-- Create an instruction and append it at a cursor. -/
  | appendNew (cursor : Cursor) (operation : Operation)
  /-- Link an instruction at the end of the chain of a label. -/
  | pushBack (label : LabelRef) (instruction : InstructionRef)
  /-- Link an instruction behind another one. -/
  | insertAfter (point instruction : InstructionRef)

namespace Edit

/-- The constant of a literal. -/
def constantOf : Literal → Edit Constant
  | .num value => numConstant value
  | .str text => strConstant text

end Edit

namespace Request

/-- Do what is requested, whatever comes of it. -/
def run : Request → Edit Unit
  | getType request => request.run
  | addRegister name type => do let _ ← Edit.addValue (.register name type)
  | addGlobalPointer name type => do let _ ← Edit.addValue (.globalPointer name type)
  | addConstant literal => do
    let constant ← Edit.constantOf literal
    let _ ← Edit.addValue (.constant constant)
  | getResult instruction => do let _ ← Edit.resultValue instruction
  | getGlobal global => do let _ ← Edit.globalValue global
  | addInstruction operation => do let _ ← Edit.addInstruction operation
  | declare name type => do let _ ← Edit.declareFunction name type
  | setParams function params => Edit.setParams function params
  | define name literal => do
    let constant ← Edit.constantOf literal
    let _ ← Edit.defineGlobal name constant
  | append function label instruction => Edit.append function label instruction
  | appendNew cursor operation => do let _ ← cursor.appendNew operation
  | pushBack label instruction => Edit.pushBack label instruction
  | insertAfter point instruction => Edit.insertAfter point instruction

/-- Do what is requested, one after the other. -/
def runAll (requests : List Request) : Edit Unit := forM requests run

end Request

namespace Program

/-! ## Ways to change a program -/

/-- Every constant has the type of its literal. -/
def ConstantsTyped (program : Program) : Prop :=
  ∀ ref constant, program.values.get? ref = some (.constant constant) →
    program.typeName constant.type = .ok constant.literal.typeName

/-- Constants stay typed if types stay and new constants are typed. -/
theorem ConstantsTyped.mono {program after : Program} (h : program.ConstantsTyped)
    (htypes : ∀ {ref name}, program.typeName ref = .ok name → after.typeName ref = .ok name)
    (hnew : ∀ ref constant, after.values.get? ref = some (.constant constant) →
      program.values.get? ref = some (.constant constant) ∨
        after.typeName constant.type = .ok constant.literal.typeName) :
    after.ConstantsTyped := by
  intro ref constant hvalue
  rcases hnew ref constant hvalue with hold | htyped
  · exact htypes (h ref constant hold)
  · exact htyped

/-- A program grows, and its constants stay typed. -/
structure Develops (program after : Program) : Prop extends program.Grows after where
  /-- Constants stay typed. -/
  constants : program.ConstantsTyped → after.ConstantsTyped

namespace Develops

variable {program after further : Program}

/-- A program develops into itself. -/
theorem refl (program : Program) : program.Develops program := ⟨.refl program, id⟩

/-- Developments follow one another. -/
theorem trans (first : program.Develops after) (second : after.Develops further) :
    program.Develops further :=
  ⟨first.toGrows.trans second.toGrows, second.constants ∘ first.constants⟩

/-- Values that stay leave all constants typed. -/
theorem of_values (h : program.Grows after) (hvalues : after.values = program.values) :
    program.Develops after :=
  ⟨h, fun htyped => htyped.mono h.toExtends.typeName fun _ _ hvalue => .inl (hvalues ▸ hvalue)⟩

/-- A new value that is no constant or a typed one leaves all constants typed. -/
theorem of_value (h : program.Grows after) {value : Value}
    (hvalues : after.values = (program.values.alloc value).2)
    (hvalue : ∀ constant, value = .constant constant →
      after.typeName constant.type = .ok constant.literal.typeName) :
    program.Develops after := by
  refine ⟨h, fun htyped => htyped.mono h.toExtends.typeName fun ref constant hfound => ?_⟩
  rw [hvalues] at hfound
  rcases Arena.get?_alloc_eq_some hfound with ⟨-, hnew⟩ | hold
  · exact .inr (hvalue constant hnew.symm)
  · exact .inl hold

end Develops

/-- A change of a program besides growing that leaves the bodies of functions alone, with all that it
takes. -/
inductive Revision (program after : Program) : Prop
  /-- The value of a global. -/
  | globalValue {ref : GlobalRef} {entry : Global} {value : ValueRef}
    (entry_eq : program.globals.get? ref = some entry)
    (run_eq : Edit.globalValue ref program = .ok (value, after))
  /-- A function is declared. -/
  | declare {name : String} {type : TypeRef} {signature : Signature} {ref : FunctionRef}
    (signature_eq : program.signature? type = .ok (some signature))
    (new : program.functionOfType? name type = .ok none)
    (run_eq : Edit.declareFunction name type program = .ok (ref, after))
  /-- Parameters get their names. -/
  | setParams {function : FunctionRef} {entry : Function} {params : List String}
    (entry_eq : program.functions.get? function = some entry)
    (run_eq : Edit.setParams function params program = .ok ((), after))
  /-- A global is defined. -/
  | define {name : String} {type : TypeRef} {literal : Literal} {ref : GlobalRef}
    (type_eq : program.typeName type = .ok literal.typeName)
    (new : program.globalNamed? name = none)
    (run_eq : Edit.defineGlobal name ⟨type, literal⟩ program = .ok (ref, after))

/-- A change of a program besides growing, with all that it takes. -/
inductive Change (program after : Program) : Prop
  /-- The bodies of functions stay. -/
  | revision (revision : program.Revision after)
  /-- An instruction is appended to a label of a function. -/
  | append {function : FunctionRef} {name : String} {ref : InstructionRef}
    (run_eq : Edit.append function name ref program = .ok ((), after))
  /-- An instruction is linked at the end of a chain. -/
  | pushBack {label : LabelRef} {ref : InstructionRef}
    (run_eq : Edit.pushBack label ref program = .ok ((), after))
  /-- An instruction is linked behind another one. -/
  | insertAfter {point ref : InstructionRef}
    (run_eq : Edit.insertAfter point ref program = .ok ((), after))

end Program

/-! ## Edits as changes -/

namespace Edit

open Program

variable {program after : Program}

/-- Whoever has changed a function has found it. -/
theorem exists_of_updateFunction {ref : FunctionRef} {change : Function → Function}
    (hrun : updateFunction ref change program = .ok ((), after)) :
    ∃ entry, program.functions.get? ref = some entry ∧
      after = { program with functions := program.functions.modify ref change } := by
  obtain ⟨entry, middle, hask, -⟩ := Step.bind_eq_ok.1 hrun
  have hentry := found_eq_ok.1 (ask_eq_ok.1 hask).1
  rw [updateFunction_of_some ⟨entry, hentry⟩] at hrun
  exact ⟨entry, hentry, by simpa [eq_comm] using hrun⟩

/-- Adding types leaves all values as they are. -/
theorem develops_of_addsTypes (h : program.AddsTypes after) (hinterned : after.Interned) :
    program.Develops after :=
  .of_values (.of_addsTypes h hinterned) (by rw [h.rest])

/-- The constant of a literal has the type of the literal. -/
theorem constantOf_yields (h : program.Interned) (literal : Literal) :
    Step.Yields (constantOf literal) program fun constant after =>
      program.Develops after ∧ constant.literal = literal ∧
        after.typeName constant.type = .ok literal.typeName := by
  cases literal with
  | num value =>
    have htype := intern_yields h (show program.HasShape .num .num from trivial)
    rw [TypeTree.name] at htype
    refine htype.bind fun ref middle hmiddle => .pure ⟨?_, rfl, ?_⟩
    · exact develops_of_addsTypes hmiddle.1 hmiddle.2.1
    · exact typeName_eq_ok.2 ⟨_, hmiddle.2.2, rfl⟩
  | str text =>
    have htype := intern_yields h (show program.HasShape .str .str from trivial)
    rw [TypeTree.name] at htype
    refine htype.bind fun ref middle hmiddle => .pure ⟨?_, rfl, ?_⟩
    · exact develops_of_addsTypes hmiddle.1 hmiddle.2.1
    · exact typeName_eq_ok.2 ⟨_, hmiddle.2.2, rfl⟩

/-- Creating a value that is no constant or a typed one. -/
theorem develops_of_addValue {value : Value} {ref : ValueRef}
    (hvalue : ∀ constant, value = .constant constant →
      program.typeName constant.type = .ok constant.literal.typeName)
    (hrun : addValue value program = .ok (ref, after)) : program.Develops after := by
  have hgrows := ((addValue_yields program value).of_eq_ok hrun).1
  obtain ⟨-, rfl⟩ := Prod.mk.inj (Except.ok.inj hrun)
  exact .of_value hgrows rfl hvalue

/-- Creating an instruction. -/
theorem develops_of_addInstruction {operation : Operation} {ref : InstructionRef}
    (hrun : addInstruction operation program = .ok (ref, after)) : program.Develops after := by
  have hgrows := ((addInstruction_yields program operation).of_eq_ok hrun).1
  obtain ⟨-, rfl⟩ := Prod.mk.inj (Except.ok.inj hrun)
  exact .of_values hgrows rfl

/-- The value of an instruction is there already, or it is new. -/
theorem resultValue_cases {ref : InstructionRef} {value : ValueRef}
    (hrun : resultValue ref program = .ok (value, after)) :
    ∃ entry, program.instructions.get? ref = some entry ∧
      (entry.result = some value ∧ program = after ∨
        entry.result = none ∧ value = program.values.nextRef ∧ { program with
          values := (program.values.alloc (.result ref)).2
          instructions := program.instructions.modify ref fun instruction =>
            { instruction with result := some value } } = after) := by
  obtain ⟨entry, middle, hask, hrest⟩ := Step.bind_eq_ok.1 hrun
  refine ⟨entry, found_eq_ok.1 (ask_eq_ok.1 hask).1, ?_⟩
  rw [(ask_eq_ok.1 hask).2] at hrest
  cases hresult : entry.result with
  | some old =>
    rw [hresult] at hrest
    obtain ⟨rfl, rfl⟩ : old = value ∧ program = after := by simpa using hrest
    exact .inl ⟨rfl, rfl⟩
  | none =>
    rw [hresult] at hrest
    obtain ⟨added, valued, hadd, hlast⟩ := Step.bind_eq_ok.1 hrest
    obtain ⟨rfl, rfl⟩ := Prod.mk.inj (Except.ok.inj hadd)
    obtain ⟨⟨⟩, final, hupdate, hanswer⟩ := Step.bind_eq_ok.1 hlast
    obtain ⟨found, known, hknown, hmodify⟩ := Step.bind_eq_ok.1 hupdate
    rw [(ask_eq_ok.1 hknown).2, Step.modify_apply] at hmodify
    obtain ⟨-, rfl⟩ := Prod.mk.inj (Except.ok.inj hmodify)
    obtain ⟨rfl, rfl⟩ : _ = value ∧ _ = after := by simpa using hanswer
    exact .inr ⟨rfl, rfl, rfl⟩

/-- Asking for the value of an instruction. -/
theorem develops_of_resultValue {ref : InstructionRef} {value : ValueRef}
    (hrun : resultValue ref program = .ok (value, after)) : program.Develops after := by
  obtain ⟨entry, hentry, hcases⟩ := resultValue_cases hrun
  have hgrows := ((resultValue_yields hentry).of_eq_ok hrun).1
  obtain ⟨-, rfl⟩ | ⟨-, -, rfl⟩ := hcases
  · exact .refl program
  · exact .of_value hgrows rfl (by simp)

/-- Whoever has asked for the value of a global has changed nothing else. -/
theorem revision_of_globalValue {ref : GlobalRef} {value : ValueRef}
    (hrun : globalValue ref program = .ok (value, after)) : program.Revision after := by
  obtain ⟨entry, middle, hask, -⟩ := Step.bind_eq_ok.1 hrun
  exact .globalValue (found_eq_ok.1 (ask_eq_ok.1 hask).1) hrun

/-- Whoever has declared a function had a function type, and the function was new. -/
theorem new_of_declareFunction {name : String} {type : TypeRef} {ref : FunctionRef}
    (hrun : declareFunction name type program = .ok (ref, after)) :
    ∃ signature, program.signature? type = .ok (some signature) ∧
      program.functionOfType? name type = .ok none := by
  obtain ⟨signature?, middle, hsignature, hrest⟩ := Step.bind_eq_ok.1 hrun
  obtain ⟨hsignature, rfl⟩ := ask_eq_ok.1 hsignature
  cases signature? with
  | none =>
    obtain ⟨shown, middle, hname, hthrown⟩ := Step.bind_eq_ok.1 hrest
    obtain ⟨never, final, hthrown, hrest'⟩ := Step.bind_eq_ok.1 hthrown
    exact absurd hthrown (by simp)
  | some signature =>
    obtain ⟨found?, middle, hfound, hlast⟩ := Step.bind_eq_ok.1 hrest
    obtain ⟨hfound, rfl⟩ := ask_eq_ok.1 hfound
    cases found? with
    | some found =>
      obtain ⟨shown, middle, hname, hthrown⟩ := Step.bind_eq_ok.1 hlast
      obtain ⟨never, final, hthrown, hrest'⟩ := Step.bind_eq_ok.1 hthrown
      exact absurd hthrown (by simp)
    | none => exact ⟨signature, hsignature, hfound⟩

/-- Declaring a function is a revision. -/
theorem revision_of_declareFunction {name : String} {type : TypeRef} {ref : FunctionRef}
    (hrun : declareFunction name type program = .ok (ref, after)) : program.Revision after := by
  obtain ⟨signature, hsignature, hnew⟩ := new_of_declareFunction hrun
  exact .declare hsignature hnew hrun

/-- Whoever has defined a global had a free name. -/
theorem new_of_defineGlobal {name : String} {constant : Constant} {ref : GlobalRef}
    (hrun : defineGlobal name constant program = .ok (ref, after)) :
    program.globalNamed? name = none := by
  cases hname : program.globalNamed? name with
  | none => rfl
  | some found =>
    have hthrown : (defineGlobal name constant) program = .error (.duplicateGlobal name) := by
      rw [defineGlobal, Step.bind_of_ok (Step.get_apply program), hname]
      rfl
    exact absurd (hthrown.symm.trans hrun) (by simp)

/-- Appending at a cursor that succeeds has appended, or the cursor has no function. -/
theorem cursorAppend_cases {cursor : Cursor} {ref : InstructionRef}
    {answer : Except BuildError InstructionRef}
    (hrun : cursor.append ref program = .ok (answer, after)) :
    cursor.function = none ∧ answer = .error .noFunction ∧ after = program ∨
      ∃ function, cursor.function = some function ∧ answer = .ok ref ∧
        append function cursor.label ref program = .ok ((), after) := by
  obtain ⟨function?, label⟩ := cursor
  cases function? with
  | none =>
    obtain ⟨rfl, rfl⟩ := Prod.mk.inj (Except.ok.inj hrun)
    exact .inl ⟨rfl, rfl, rfl⟩
  | some function =>
    obtain ⟨⟨⟩, middle, happend, hlast⟩ := Step.bind_eq_ok.1 hrun
    obtain ⟨rfl, rfl⟩ := Prod.mk.inj (Except.ok.inj hlast)
    exact .inr ⟨function, rfl, rfl, happend⟩

/-- Appending at a cursor is a change, or it does nothing. -/
theorem change_of_cursorAppend {cursor : Cursor} {ref : InstructionRef}
    {answer : Except BuildError InstructionRef}
    (hrun : cursor.append ref program = .ok (answer, after)) :
    program = after ∨ program.Change after := by
  obtain ⟨-, -, rfl⟩ | ⟨function, -, -, happend⟩ := cursorAppend_cases hrun
  · exact .inl rfl
  · exact .inr (.append happend)

end Edit

namespace Request

open Program

/-! ## Requests as changes -/

/-- The request leaves the bodies of functions alone. -/
def SparesBodies : Request → Prop
  | append .. | appendNew .. | pushBack .. | insertAfter .. => False
  | _ => True

/-- A request that spares bodies and succeeds lets the program grow and then makes one revision at
most. -/
theorem exists_revision {request : Request} {program after : Program} (hspares : request.SparesBodies)
    (h : program.Interned) (hrun : request.run program = .ok ((), after)) :
    ∃ middle, program.Develops middle ∧ (middle = after ∨ middle.Revision after) := by
  cases request with
  | getType request =>
    obtain ⟨hadds, hinterned⟩ := TypeRequest.addsTypes_of_run h hrun
    exact ⟨after, Edit.develops_of_addsTypes hadds hinterned, .inl rfl⟩
  | addRegister name type =>
    obtain ⟨value, hadd⟩ := (Step.drop_eq_ok fun _ => rfl).1 hrun
    exact ⟨after, Edit.develops_of_addValue (by simp) hadd, .inl rfl⟩
  | addGlobalPointer name type =>
    obtain ⟨value, hadd⟩ := (Step.drop_eq_ok fun _ => rfl).1 hrun
    exact ⟨after, Edit.develops_of_addValue (by simp) hadd, .inl rfl⟩
  | addConstant literal =>
    obtain ⟨constant, middle, hconstant, hrest⟩ := Step.bind_eq_ok.1 hrun
    obtain ⟨value, hadd⟩ := (Step.drop_eq_ok fun _ => rfl).1 hrest
    obtain ⟨hdevelops, rfl, htype⟩ := (Edit.constantOf_yields h literal).of_eq_ok hconstant
    refine ⟨after, hdevelops.trans (Edit.develops_of_addValue ?_ hadd), .inl rfl⟩
    rintro _ ⟨⟩
    exact htype
  | getResult instruction =>
    obtain ⟨value, hresult⟩ := (Step.drop_eq_ok fun _ => rfl).1 hrun
    exact ⟨after, Edit.develops_of_resultValue hresult, .inl rfl⟩
  | getGlobal global =>
    obtain ⟨value, hresult⟩ := (Step.drop_eq_ok fun _ => rfl).1 hrun
    exact ⟨program, .refl program, .inr (Edit.revision_of_globalValue hresult)⟩
  | addInstruction operation =>
    obtain ⟨ref, hadd⟩ := (Step.drop_eq_ok fun _ => rfl).1 hrun
    exact ⟨after, Edit.develops_of_addInstruction hadd, .inl rfl⟩
  | declare name type =>
    obtain ⟨ref, hdeclare⟩ := (Step.drop_eq_ok fun _ => rfl).1 hrun
    exact ⟨program, .refl program, .inr (Edit.revision_of_declareFunction hdeclare)⟩
  | setParams function params =>
    obtain ⟨entry, hentry, -⟩ := Edit.exists_of_updateFunction hrun
    exact ⟨program, .refl program, .inr (.setParams hentry hrun)⟩
  | define name literal =>
    obtain ⟨constant, middle, hconstant, hrest⟩ := Step.bind_eq_ok.1 hrun
    obtain ⟨ref, hdefine⟩ := (Step.drop_eq_ok fun _ => rfl).1 hrest
    obtain ⟨hdevelops, rfl, htype⟩ := (Edit.constantOf_yields h literal).of_eq_ok hconstant
    exact ⟨middle, hdevelops, .inr (.define htype (Edit.new_of_defineGlobal hdefine) hdefine)⟩
  -- these four touch a body
  | append | appendNew | pushBack | insertAfter => exact hspares.elim

/-- **Requests as changes**: a request that succeeds lets the program grow and then makes one change
at most. -/
theorem exists_change {request : Request} {program after : Program} (h : program.Interned)
    (hrun : request.run program = .ok ((), after)) :
    ∃ middle, program.Develops middle ∧ (middle = after ∨ middle.Change after) := by
  by_cases hspares : request.SparesBodies
  · obtain ⟨middle, hdevelops, hlast⟩ := exists_revision hspares h hrun
    exact ⟨middle, hdevelops, hlast.imp_right .revision⟩
  cases request with
  | append function label instruction => exact ⟨program, .refl program, .inr (.append hrun)⟩
  | appendNew cursor operation =>
    obtain ⟨answer, happend⟩ := (Step.drop_eq_ok fun _ => rfl).1 hrun
    obtain ⟨ref, middle, hadd, hrest⟩ := Step.bind_eq_ok.1 happend
    exact ⟨middle, Edit.develops_of_addInstruction hadd, Edit.change_of_cursorAppend hrest⟩
  | pushBack label instruction => exact ⟨program, .refl program, .inr (.pushBack hrun)⟩
  | insertAfter point instruction =>
    exact ⟨program, .refl program, .inr (.insertAfter hrun)⟩
  | _ => exact absurd trivial hspares

/-- What the initial program has, and what programs keep that grow or change, every program has
that is built by requests. -/
theorem property_of_runAll (property : Program → Prop) (hinitial : property Program.initial)
    (hinterned : ∀ program, property program → program.Interned)
    (hdevelops : ∀ program after : Program, property program → program.Develops after →
      property after)
    (hchange : ∀ program after : Program, property program → program.Change after →
      property after)
    {requests : List Request} {program : Program}
    (hrun : runAll requests Program.initial = .ok ((), program)) : property program := by
  -- a request is growth and at most one change behind it, so the property is carried twice
  have hkeeps : ∀ (requests : List Request) (program after : Program), property program →
      runAll requests program = .ok ((), after) → property after := by
    intro requests
    induction requests with
    | nil =>
      intro program after hprogram hrun
      obtain ⟨-, rfl⟩ : () = () ∧ program = after := by simpa [runAll] using hrun
      exact hprogram
    | cons request requests ih =>
      intro program after hprogram hrun
      rw [runAll, List.forM_cons] at hrun
      obtain ⟨⟨⟩, between, hfirst, hrest⟩ := Step.bind_eq_ok.1 hrun
      obtain ⟨middle, hmiddle, hlast⟩ := exists_change (hinterned program hprogram) hfirst
      have hgrown := hdevelops program middle hprogram hmiddle
      rcases hlast with rfl | hlast
      · exact ih middle after hgrown hrest
      · exact ih between after (hchange middle between hgrown hlast) hrest
  exact hkeeps requests Program.initial program hinitial hrun

end Request

end ChainIR
