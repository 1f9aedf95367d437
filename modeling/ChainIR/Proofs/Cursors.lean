import Mathlib
import ChainIR.Proofs.Bodies
import ChainIR.Proofs.Outline.Reread
import ChainIR.Proofs.Reading.Chains

/-! # Building at several cursors

A session is a program that is built at any number of cursors, with their moves and their attempts
to append in any order, and with requests in between that leave the bodies of functions alone. The
cursors do not get in each other's way, nor does a label in that of a function of another one: what
is appended to a function goes behind what there was, each instruction under the label at which its
cursor stood, in the order of the attempts (`Program.Reachable.session`). A cursor without a
function appends nothing, and whatever is free can be appended at any other one.

* `Session.run`: a run of a session, with the attempts that it makes.
* `Program.HasBodies`: a program whose bodies are made of the given instructions.
* `Session.hasBodies_of_run`: what a run does to bodies, by one lemma for each kind of step. -/

namespace ChainIR

/-! ## Sessions -/

/-- **Sessions**: a program that is built at several cursors. -/
structure Session (ι : Type) where
  /-- The cursors. -/
  cursors : ι → Cursor
  /-- The program. -/
  program : Program

/-- A step of a session. -/
inductive SessionStep (ι : Type)
  /-- Put a cursor at a label of a function. -/
  | start (cursor : ι) (function : FunctionRef) (label : String)
  /-- Move a cursor to another function. -/
  | toFunction (cursor : ι) (function : FunctionRef)
  /-- Move a cursor to another label. -/
  | toLabel (cursor : ι) (label : String)
  /-- Append an instruction at a cursor. -/
  | append (cursor : ι) (instruction : InstructionRef)
  /-- Create an instruction and append it at a cursor. -/
  | appendNew (cursor : ι) (operation : Operation)
  /-- Make a request to the program. -/
  | request (request : Request)

/-- The step changes bodies at cursors alone. -/
def SessionStep.SparesBodies {ι : Type} : SessionStep ι → Prop
  | .request made => made.SparesBodies
  | _ => True

/-- An attempt to append. -/
structure Attempt where
  /-- The place of the cursor. -/
  place : Cursor
  /-- The instruction that has been appended, or why there is none. -/
  answer : Except BuildError InstructionRef

namespace Attempt

/-- What an attempt has appended to a function, with its label. -/
def itemAt? (function : FunctionRef) (attempt : Attempt) : Option (String × InstructionRef) :=
  match attempt.answer with
  | .ok ref => if attempt.place.function = some function then some (attempt.place.label, ref) else none
  | .error _ => none

/-- What attempts have appended to a function, with their labels. -/
def itemsAt (function : FunctionRef) (attempts : List Attempt) : List (String × InstructionRef) :=
  attempts.filterMap (itemAt? function)

end Attempt

namespace Session

variable {ι : Type}

/-- Change the program of a session. -/
def edit {α : Type} (change : Edit α) : StateT (Session ι) (Except Fault) α := fun session =>
  (change session.program).map fun (answer, program) => (answer, { session with program })

/-- Try to append at a cursor. -/
def attempt (cursor : ι) (append : Cursor → Edit (Except BuildError InstructionRef)) :
    StateT (Session ι) (Except Fault) (List Attempt) := do
  let place := (← get).cursors cursor
  let answer ← edit (append place)
  return [⟨place, answer⟩]

variable [DecidableEq ι]

/-- A session with one cursor moved. -/
def move (session : Session ι) (cursor : ι) (change : Cursor → Cursor) : Session ι :=
  { session with
    cursors := Function.update session.cursors cursor (change (session.cursors cursor)) }

/-- Make a step, with the attempts to append that it makes. -/
def step : SessionStep ι → StateT (Session ι) (Except Fault) (List Attempt)
  | .start cursor function label => do
    modify (·.move cursor fun _ => .start function label)
    return []
  | .toFunction cursor function => do
    modify (·.move cursor (·.toFunction function))
    return []
  | .toLabel cursor label => do
    modify (·.move cursor (·.toLabel label))
    return []
  | .append cursor instruction => attempt cursor (·.append instruction)
  | .appendNew cursor operation => attempt cursor (·.appendNew operation)
  | .request request => do
    edit request.run
    return []

/-- Make steps, with the attempts to append that they make. -/
def run : List (SessionStep ι) → StateT (Session ι) (Except Fault) (List Attempt)
  | [] => return []
  | first :: rest => do
    let attempts ← step first
    let others ← run rest
    return attempts ++ others

end Session

/-! ## Blocks that are made of items -/

namespace Routine

variable {σ : Type}

/-- There are no blocks exactly if there are no items. -/
theorem blocksOf_eq_nil {items : List (String × σ)} : blocksOf items = [] ↔ items = [] := by
  cases items with
  | nil => exact iff_of_true rfl rfl
  | cons item rest =>
    refine iff_of_false ?_ (List.cons_ne_nil _ _)
    rw [blocksOf, List.map_cons, List.eraseDups_cons]
    exact List.cons_ne_nil _ _

/-- Appending items of one label to blocks. -/
theorem appendAll_of_blocksOf {routine : Routine σ} {items : List (String × σ)}
    (h : routine.blocks = blocksOf items) (name : String) (statements : List σ) :
    (routine.appendAll name statements).blocks =
      blocksOf (items ++ statements.map fun statement => (name, statement)) := by
  induction statements generalizing routine items with
  | nil => simpa [appendAll] using h
  | cons statement statements ih =>
    have hrest := ih (append_of_blocksOf h name statement)
    rw [appendAll, List.foldl_cons, ← appendAll, hrest, List.append_assoc]
    rfl

/-- The blocks of a function are made of items. -/
theorem exists_items {routine : Routine σ} (hnodup : routine.labels.Nodup)
    (hfilled : ∀ block ∈ routine.blocks, block.statements ≠ []) :
    ∃ items, routine.blocks = blocksOf items := by
  obtain ⟨prototype, params, blocks⟩ := routine
  induction blocks using List.reverseRecOn with
  | nil => exact ⟨[], rfl⟩
  | append_singleton front block ih =>
    rw [labels, List.map_append, List.map_singleton, List.nodup_append] at hnodup
    obtain ⟨hfront, -, hapart⟩ := hnodup
    obtain ⟨items, hitems⟩ := ih hfront fun other hmem => hfilled other (List.mem_append_left _ hmem)
    -- the last block is what appending its statements gives
    have hnew : block.name ∉ (⟨prototype, params, front⟩ : Routine σ).labels := fun hmem =>
      hapart _ hmem _ (.head _) rfl
    have hlast := appendAll_eq_addBlocks hnew (hfilled block (by simp))
    have hblocks := appendAll_of_blocksOf hitems block.name block.statements
    rw [hlast] at hblocks
    exact ⟨_, hblocks⟩

end Routine

/-! ## Bodies -/

namespace Program

variable {program after : Program} {bodies : FunctionRef → List (String × InstructionRef)}

/-- The program has been built by requests, and the bodies of its functions are made of the given
instructions. -/
def HasBodies (program : Program) (bodies : FunctionRef → List (String × InstructionRef)) : Prop :=
  ∃ layout, program.Built layout ∧
    ∀ function, layout.blocksAt function = Routine.blocksOf (bodies function)

/-- Every program that requests have built has bodies. -/
theorem Built.exists_bodies {layout : Outline InstructionRef} (h : program.Built layout) :
    ∃ bodies, program.HasBodies bodies := by
  have hitems : ∀ function, ∃ items, layout.blocksAt function = Routine.blocksOf items := by
    intro function
    rw [Outline.blocksAt]
    cases hroutine : layout.routines[function.index]? with
    | none => exact ⟨[], rfl⟩
    | some routine =>
      have hmem := List.mem_of_getElem? hroutine
      exact Routine.exists_items (h.labels routine hmem) (h.filled routine hmem)
  choose bodies hbodies using hitems
  exact ⟨bodies, layout, h, hbodies⟩

namespace HasBodies

/-- The body of a function consists of the instructions that it is made of. -/
theorem bodyIs (h : program.HasBodies bodies) {function : FunctionRef} {entry : Function}
    (hentry : program.functions.get? function = some entry) :
    program.BodyIs function entry (bodies function) := by
  obtain ⟨layout, hbuilt, hblocks⟩ := h
  exact hbuilt.bodyIs hentry (hblocks function)

/-- A function without labels, or one that there is not, has nothing in its body. -/
theorem eq_nil (h : program.HasBodies bodies) {function : FunctionRef}
    (hnone : ∀ entry, program.functions.get? function = some entry → entry.labels = []) :
    bodies function = [] := by
  obtain ⟨layout, hbuilt, hblocks⟩ := h
  rw [← Routine.blocksOf_eq_nil, ← hblocks, Outline.blocksAt]
  cases hroutine : layout.routines[function.index]? with
  | none => rfl
  | some routine =>
    obtain ⟨entry, hentry, his⟩ := hbuilt.function_of_routine hroutine
    have hlabels := his.labels
    rw [hnone entry hentry] at hlabels
    exact List.forall₂_nil_left_iff.1 hlabels

/-- Requests that spare bodies leave them as they are. -/
theorem request (h : program.HasBodies bodies) {request : Request} (hspares : request.SparesBodies)
    (hrun : request.run program = .ok ((), after)) : after.HasBodies bodies := by
  obtain ⟨layout, hbuilt, hblocks⟩ := h
  obtain ⟨middle, hdevelops, hlast⟩ := Request.exists_revision hspares hbuilt.interned hrun
  have hmiddle := hbuilt.develops hdevelops
  rcases hlast with rfl | hrevision
  · exact ⟨layout, hmiddle, hblocks⟩
  · obtain ⟨⟨layout', hafter, hsame⟩, -⟩ := hmiddle.revision hrevision
    exact ⟨layout', hafter, fun function => (hsame function).trans (hblocks function)⟩

/-- An instruction that is appended to a label of a function goes behind what there was. -/
theorem append (h : program.HasBodies bodies) {function : FunctionRef} {label : String}
    {ref : InstructionRef} (hrun : Edit.append function label ref program = .ok ((), after)) :
    after.HasBodies (Function.update bodies function (bodies function ++ [(label, ref)])) := by
  obtain ⟨layout, hbuilt, hblocks⟩ := h
  obtain ⟨hafter, -⟩ := hbuilt.append hrun
  refine ⟨_, hafter, fun other => ?_⟩
  rw [Outline.blocksAt, Outline.getElem?_routines_modify]
  by_cases hsame : other = function
  · subst hsame
    obtain ⟨found, labelled, hlabel, -⟩ := Step.bind_eq_ok.1 hrun
    obtain ⟨entry, hentry, -⟩ := Edit.labelNamed_cases hlabel
    obtain ⟨routine, hroutine, -⟩ := hbuilt.functions other entry hentry
    have hitems := hblocks other
    rw [Outline.blocksAt, hroutine] at hitems
    rw [if_pos rfl, hroutine, Function.update_self]
    exact Routine.append_of_blocksOf hitems label ref
  · have hindex : function.index ≠ other.index := fun hequal =>
      hsame (Ref.eq_of_index hequal.symm)
    rw [if_neg hindex, Function.update_of_ne hsame]
    exact hblocks other

/-- An attempt at a cursor appends to the function of the cursor, if there is one. -/
theorem attempt (h : program.HasBodies bodies) {place : Cursor} {ref : InstructionRef}
    {answer : Except BuildError InstructionRef}
    (hrun : place.append ref program = .ok (answer, after)) :
    after.HasBodies fun function => bodies function ++ Attempt.itemsAt function [⟨place, answer⟩] := by
  obtain ⟨hnone, rfl, rfl⟩ | ⟨function, hsome, rfl, happend⟩ := Edit.cursorAppend_cases hrun
  · have hnothing : ∀ function, bodies function ++
        Attempt.itemsAt function [⟨place, .error .noFunction⟩] = bodies function :=
      fun function => List.append_nil (bodies function)
    simpa only [hnothing] using h
  · convert h.append happend using 1
    funext other
    by_cases hsame : other = function
    · subst hsame
      simp [Attempt.itemsAt, Attempt.itemAt?, hsome]
    · simp [Attempt.itemsAt, Attempt.itemAt?, hsome, Ne.symm hsame, hsame]

end HasBodies

end Program

/-! ## Steps and runs -/

namespace Attempt

theorem itemsAt_nil (function : FunctionRef) : itemsAt function [] = [] := rfl

/-- What attempts put into a function is put there in their order. -/
theorem itemsAt_append (function : FunctionRef) (attempts others : List Attempt) :
    itemsAt function (attempts ++ others) = itemsAt function attempts ++ itemsAt function others :=
  List.filterMap_append

end Attempt

namespace Session

variable {ι : Type}

/-- Changing the program of a session leaves the cursors alone. -/
theorem edit_eq_ok {α : Type} {change : Edit α} {session after : Session ι} {answer : α} :
    edit change session = .ok (answer, after) ↔
      ∃ program, change session.program = .ok (answer, program) ∧
        after = { session with program } := by
  rw [edit]
  cases change session.program with
  | error fault => simp [Except.map]
  | ok result =>
    obtain ⟨found, program⟩ := result
    simp [Except.map, eq_comm, and_assoc]

/-- An attempt is made where the cursor stands. -/
theorem attempt_eq_ok {cursor : ι} {append : Cursor → Edit (Except BuildError InstructionRef)}
    {session after : Session ι} {attempts : List Attempt} :
    attempt cursor append session = .ok (attempts, after) ↔
      ∃ answer program,
        append (session.cursors cursor) session.program = .ok (answer, program) ∧
        attempts = [⟨session.cursors cursor, answer⟩] ∧ after = { session with program } := by
  rw [attempt, Step.bind_of_ok (Step.get_apply session), Step.bind_eq_ok]
  constructor
  · rintro ⟨answer, middle, hedit, hlast⟩
    obtain ⟨program, hrun, rfl⟩ := edit_eq_ok.1 hedit
    obtain ⟨rfl, rfl⟩ := Prod.mk.inj (Except.ok.inj hlast)
    exact ⟨answer, program, hrun, rfl, rfl⟩
  · rintro ⟨answer, program, hrun, rfl, rfl⟩
    exact ⟨answer, _, edit_eq_ok.2 ⟨program, hrun, rfl⟩, rfl⟩

variable [DecidableEq ι] {session after : Session ι} {attempts : List Attempt}

/-- Appending an instruction is an attempt. -/
theorem step_append {cursor : ι} {ref : InstructionRef} :
    step (.append cursor ref) session = .ok (attempts, after) ↔
      ∃ answer program,
        (session.cursors cursor).append ref session.program = .ok (answer, program) ∧
        attempts = [⟨session.cursors cursor, answer⟩] ∧ after = { session with program } := by
  rw [step, attempt_eq_ok]

/-- Creating an instruction and appending it is an attempt. -/
theorem step_appendNew {cursor : ι} {operation : Operation} :
    step (.appendNew cursor operation) session = .ok (attempts, after) ↔
      ∃ answer program,
        (session.cursors cursor).appendNew operation session.program = .ok (answer, program) ∧
        attempts = [⟨session.cursors cursor, answer⟩] ∧ after = { session with program } := by
  rw [step, attempt_eq_ok]

/-- A step leaves the program alone, makes a request, or makes an attempt, with an instruction that
there is or that is created for it. -/
theorem step_cases {made : SessionStep ι} (hrun : step made session = .ok (attempts, after)) :
    (attempts = [] ∧ after.program = session.program) ∨
    (∃ request, made = .request request ∧ attempts = [] ∧
      request.run session.program = .ok ((), after.program)) ∨
    ∃ place answer ref middle, attempts = [⟨place, answer⟩] ∧
      (middle = session.program ∨ ∃ operation,
        (Request.addInstruction operation).run session.program = .ok ((), middle)) ∧
      place.append ref middle = .ok (answer, after.program) := by
  cases made with
  | start | toFunction | toLabel => -- moving a cursor leaves the program alone
    obtain ⟨rfl, rfl⟩ := Prod.mk.inj (Except.ok.inj hrun)
    exact .inl ⟨rfl, rfl⟩
  | request request =>
    obtain ⟨⟨⟩, middle, hedit, hlast⟩ := Step.bind_eq_ok.1 hrun
    obtain ⟨program, hrequest, rfl⟩ := edit_eq_ok.1 hedit
    obtain ⟨rfl, rfl⟩ := Prod.mk.inj (Except.ok.inj hlast)
    exact .inr (.inl ⟨request, rfl, rfl, hrequest⟩)
  | append cursor ref =>
    obtain ⟨answer, program, happend, rfl, rfl⟩ := step_append.1 hrun
    exact .inr (.inr ⟨_, answer, ref, _, rfl, .inl rfl, happend⟩)
  | appendNew cursor operation =>
    obtain ⟨answer, program, hnew, rfl, rfl⟩ := step_appendNew.1 hrun
    obtain ⟨ref, middle, hadd, happend⟩ := Step.bind_eq_ok.1 hnew
    have hrequest : (Request.addInstruction operation).run session.program = .ok ((), middle) :=
      (Step.drop_eq_ok fun _ => rfl).2 ⟨ref, hadd⟩
    exact .inr (.inr ⟨_, answer, ref, middle, rfl, .inr ⟨operation, hrequest⟩, happend⟩)

/-- A step puts what it appends behind what there was. -/
theorem hasBodies_of_step {bodies : FunctionRef → List (String × InstructionRef)}
    (h : session.program.HasBodies bodies) {made : SessionStep ι} (hspares : made.SparesBodies)
    (hrun : step made session = .ok (attempts, after)) :
    after.program.HasBodies fun function => bodies function ++ Attempt.itemsAt function attempts := by
  have hnothing : ∀ function, bodies function ++ Attempt.itemsAt function [] = bodies function :=
    fun function => List.append_nil (bodies function)
  obtain ⟨rfl, hsame⟩ | ⟨request, rfl, rfl, hrequest⟩ |
    ⟨place, answer, ref, middle, rfl, hmiddle, happend⟩ := step_cases hrun
  · simpa only [hnothing, hsame] using h
  · simpa only [hnothing] using h.request hspares hrequest
  · obtain rfl | ⟨operation, hadd⟩ := hmiddle
    · exact h.attempt happend
    · have hspared : (Request.addInstruction operation).SparesBodies := trivial
      exact (h.request hspared hadd).attempt happend

/-- A step leads to a program that can come about. -/
theorem reachable_of_step (h : session.program.Reachable) {made : SessionStep ι}
    (hrun : step made session = .ok (attempts, after)) : after.program.Reachable := by
  obtain ⟨-, hsame⟩ | ⟨request, -, -, hrequest⟩ |
    ⟨place, answer, ref, middle, -, hmiddle, happend⟩ := step_cases hrun
  · rwa [hsame]
  · exact .request h request hrequest
  · have hreachable : middle.Reachable := by
      obtain rfl | ⟨operation, hadd⟩ := hmiddle
      · exact h
      · exact .request h (.addInstruction operation) hadd
    obtain ⟨-, -, hsame⟩ | ⟨function, -, -, hlinked⟩ := Edit.cursorAppend_cases happend
    · rwa [hsame]
    · exact .request hreachable (.append function place.label ref) hlinked

/-- **Runs append in order**: a run puts what it appends behind what there was. -/
theorem hasBodies_of_run {bodies : FunctionRef → List (String × InstructionRef)}
    (h : session.program.HasBodies bodies) {steps : List (SessionStep ι)}
    (hspares : ∀ made ∈ steps, made.SparesBodies)
    (hrun : run steps session = .ok (attempts, after)) :
    after.program.HasBodies fun function => bodies function ++ Attempt.itemsAt function attempts := by
  induction steps generalizing session attempts bodies with
  | nil =>
    obtain ⟨rfl, rfl⟩ := Prod.mk.inj (Except.ok.inj hrun)
    simpa [Attempt.itemsAt_nil] using h
  | cons first rest ih =>
    obtain ⟨made, middle, hfirst, hothers⟩ := Step.bind_eq_ok.1 hrun
    obtain ⟨others, last, hrest, hlast⟩ := Step.bind_eq_ok.1 hothers
    obtain ⟨rfl, rfl⟩ := Prod.mk.inj (Except.ok.inj hlast)
    have hmiddle := hasBodies_of_step h (hspares first (.head _)) hfirst
    have hafter := ih hmiddle (fun made hmem => hspares made (.tail _ hmem)) hrest
    simpa only [Attempt.itemsAt_append, List.append_assoc] using hafter

/-- A run leads to a program that can come about. -/
theorem reachable_of_run (h : session.program.Reachable) {steps : List (SessionStep ι)}
    (hrun : run steps session = .ok (attempts, after)) : after.program.Reachable := by
  induction steps generalizing session attempts with
  | nil =>
    obtain ⟨-, rfl⟩ := Prod.mk.inj (Except.ok.inj hrun)
    exact h
  | cons first rest ih =>
    obtain ⟨made, middle, hfirst, hothers⟩ := Step.bind_eq_ok.1 hrun
    obtain ⟨others, last, hrest, hlast⟩ := Step.bind_eq_ok.1 hothers
    obtain ⟨-, rfl⟩ := Prod.mk.inj (Except.ok.inj hlast)
    exact ih (reachable_of_step h hfirst) hrest

/-- A cursor without a function appends nothing; an instruction that is created for it stays in no
chain. -/
theorem attempt_of_none {cursor : ι} (hnone : (session.cursors cursor).function = none) :
    (∀ ref, step (.append cursor ref) session =
      .ok ([⟨session.cursors cursor, .error .noFunction⟩], session)) ∧
    ∀ operation, step (.appendNew cursor operation) session =
      .ok ([⟨session.cursors cursor, .error .noFunction⟩],
        { session with program := { session.program with
          instructions :=
            (session.program.instructions.allocWith fun self => { self, operation }).2 } }) := by
  have happend : ∀ ref program, (session.cursors cursor).append ref program =
      .ok (.error .noFunction, program) := by
    intro ref program
    rw [Cursor.append, hnone]
    rfl
  refine ⟨fun ref => ?_, fun operation => ?_⟩
  · exact step_append.2 ⟨_, _, happend ref session.program, rfl, rfl⟩
  · exact step_appendNew.2 ⟨_, _, (Step.bind_of_ok rfl).trans (happend _ _), rfl, rfl⟩

/-- At a cursor with a function whatever is free can be appended, and so can what is new. -/
theorem attempt_of_some (h : session.program.Reachable) {cursor : ι} {function : FunctionRef}
    {entry : Function} (hcursor : (session.cursors cursor).function = some function)
    (hentry : session.program.functions.get? function = some entry) :
    (∀ ref instruction, session.program.instructions.get? ref = some instruction →
      instruction.label = none → ∃ after, step (.append cursor ref) session =
        .ok ([⟨session.cursors cursor, .ok ref⟩], after)) ∧
    ∀ operation, ∃ after, step (.appendNew cursor operation) session =
      .ok ([⟨session.cursors cursor, .ok session.program.instructions.nextRef⟩], after) := by
  obtain ⟨layout, hbuilt⟩ := h.requested.exists_built
  -- stated for any program, as the new instruction is appended to a later one
  have happend : ∀ program, program.WellFormed layout →
      program.functions.get? function = some entry → ∀ ref instruction,
      program.instructions.get? ref = some instruction → instruction.label = none →
      ∃ after, (session.cursors cursor).append ref program = .ok (.ok ref, after) := by
    intro program hformed hentry ref instruction hinstruction hunlinked
    obtain ⟨⟨⟩, after, hrun, -⟩ := Edit.append_yields hformed hentry (session.cursors cursor).label
      hinstruction hunlinked
    refine ⟨after, ?_⟩
    rw [Cursor.append, hcursor]
    exact Step.bind_of_ok hrun
  refine ⟨fun ref instruction hinstruction hunlinked => ?_, fun operation => ?_⟩
  · obtain ⟨after, hrun⟩ :=
      happend _ hbuilt.toWellFormed hentry ref instruction hinstruction hunlinked
    exact ⟨_, step_append.2 ⟨_, after, hrun, rfl, rfl⟩⟩
  · obtain ⟨ref, middle, hadd, hgrows, hinstruction⟩ :=
      Edit.addInstruction_yields session.program operation
    obtain ⟨rfl, rfl⟩ := Prod.mk.inj (Except.ok.inj hadd)
    obtain ⟨after, hrun⟩ :=
      happend _ (hbuilt.toWellFormed.grows hgrows) hentry _ _ hinstruction rfl
    exact ⟨_, step_appendNew.2 ⟨_, after, (Step.bind_of_ok hadd).trans hrun, rfl, rfl⟩⟩

end Session

/-- **Cursors build bodies of their own**, however the program has come about that they start from.
After a run that changes bodies at cursors alone, the body of a function consists of what was in it,
and then of the instructions that have been appended while a cursor stood at the function, each
under the label of the cursor, in the order of the attempts; a function without labels had nothing
in it, nor had one that is new. Moving a cursor to another function leaves it its label. A cursor
without function appends nothing and changes nothing, but an instruction that is created for it
stays. At any other cursor an instruction that is in no chain is appended. -/
theorem Program.Reachable.session {ι : Type} [DecidableEq ι] {session : Session ι}
    (h : session.program.Reachable) :
    (∃ bodies : FunctionRef → List (String × InstructionRef),
      (∀ function entry, session.program.functions.get? function = some entry →
        session.program.BodyIs function entry (bodies function)) ∧
      (∀ function, (∀ entry, session.program.functions.get? function = some entry →
        entry.labels = []) → bodies function = []) ∧
      ∀ steps attempts after, (∀ made ∈ steps, made.SparesBodies) →
        Session.run steps session = .ok (attempts, after) → after.program.Reachable ∧
          ∀ function entry, after.program.functions.get? function = some entry →
            after.program.BodyIs function entry
              (bodies function ++ Attempt.itemsAt function attempts)) ∧
    (∀ cursor function, ∃ after, Session.step (.toFunction cursor function) session =
      .ok ([], after) ∧ after.program = session.program ∧
      after.cursors cursor = ⟨some function, (session.cursors cursor).label⟩ ∧
      ∀ other, other ≠ cursor → after.cursors other = session.cursors other) ∧
    (∀ cursor, (session.cursors cursor).function = none →
      (∀ ref, Session.step (.append cursor ref) session =
        .ok ([⟨session.cursors cursor, .error .noFunction⟩], session)) ∧
      ∀ operation, Session.step (.appendNew cursor operation) session =
        .ok ([⟨session.cursors cursor, .error .noFunction⟩],
          { session with program := { session.program with
            instructions :=
              (session.program.instructions.allocWith fun self => { self, operation }).2 } })) ∧
    ∀ cursor function entry, (session.cursors cursor).function = some function →
      session.program.functions.get? function = some entry →
      (∀ ref instruction, session.program.instructions.get? ref = some instruction →
        instruction.label = none → ∃ after, Session.step (.append cursor ref) session =
          .ok ([⟨session.cursors cursor, .ok ref⟩], after)) ∧
      ∀ operation, ∃ after, Session.step (.appendNew cursor operation) session =
        .ok ([⟨session.cursors cursor, .ok session.program.instructions.nextRef⟩], after) := by
  obtain ⟨layout, hbuilt⟩ := h.requested.exists_built
  obtain ⟨bodies, hbodies⟩ := hbuilt.exists_bodies
  refine ⟨⟨bodies, fun function entry => hbodies.bodyIs, fun function => hbodies.eq_nil,
    fun steps attempts after hspares hrun => ?_⟩, fun cursor function => ?_,
    fun cursor => Session.attempt_of_none, fun cursor function entry => Session.attempt_of_some h⟩
  · refine ⟨Session.reachable_of_run h hrun, fun function entry hentry => ?_⟩
    exact (Session.hasBodies_of_run hbodies hspares hrun).bodyIs hentry
  · refine ⟨_, rfl, rfl, Function.update_self .., fun other hother => ?_⟩
    exact Function.update_of_ne hother _ _

/-- Two cursors without a function. -/
def followingStart : Session Bool := ⟨fun _ => {}, Program.initial⟩

/-- One of two cursors follows the other to its function. -/
def followingSteps : List (SessionStep Bool) :=
  [.appendNew false (.ret none), .start false ⟨0⟩ "a", .start true ⟨1⟩ "a",
    .appendNew false (.jump "b"), .appendNew true (.jump "a"), .toLabel false "b",
    .append false ⟨0⟩, .toFunction true ⟨0⟩, .appendNew true (.jump "b")]

/-- Of an instruction that is created at a cursor without function nothing is seen until it is
appended. Labels of one name in two functions have chains of their own, and one of them is continued
at another cursor. -/
theorem session_following : ∃ attempts after,
    Session.run followingSteps followingStart = .ok (attempts, after) ∧
      after.program.chainNamed ⟨0⟩ "a" = .ok [⟨1⟩, ⟨3⟩] ∧
      after.program.chainNamed ⟨0⟩ "b" = .ok [⟨0⟩] ∧
      after.program.chainNamed ⟨1⟩ "a" = .ok [⟨2⟩] := by
  have hmade : (Session.run followingSteps followingStart).toOption.map
      (fun made => (Attempt.itemsAt ⟨0⟩ made.1, Attempt.itemsAt ⟨1⟩ made.1,
        made.2.program.functions.size)) =
      some ([("a", ⟨1⟩), ("b", ⟨0⟩), ("a", ⟨3⟩)], [("a", ⟨2⟩)], 13) := by decide +kernel
  have hlabels : ∀ index < 2,
      (followingStart.program.functions.get? ⟨index⟩).all (·.labels.isEmpty) := by decide +kernel
  have hspares : ∀ made ∈ followingSteps, made.SparesBodies := by
    simp [followingSteps, SessionStep.SparesBodies]
  have hprogram : followingStart.program = Program.initial := by rw [followingStart]
  have hreachable : followingStart.program.Reachable := by
    rw [hprogram]
    exact .initial
  obtain ⟨⟨attempts, after⟩, hsome, hitems⟩ := Option.map_eq_some_iff.1 hmade
  obtain ⟨hzero, hrest⟩ := Prod.mk.inj hitems
  obtain ⟨hone, hsize⟩ := Prod.mk.inj hrest
  have hrun : Session.run followingSteps followingStart = .ok (attempts, after) := by
    cases hresult : Session.run followingSteps followingStart with
    | error fault => simp [hresult, Except.toOption] at hsome
    | ok result => simpa [hresult, Except.toOption] using hsome
  obtain ⟨⟨bodies, -, hnil, hruns⟩, -⟩ := hreachable.session
  obtain ⟨-, hbodies⟩ := hruns followingSteps attempts after hspares hrun
  -- there is nothing in the bodies of the two functions at first
  have hempty : ∀ index < 2, bodies ⟨index⟩ = [] := by
    intro index hlt
    refine hnil ⟨index⟩ fun entry hentry => ?_
    have hnone := hlabels index hlt
    rw [hentry] at hnone
    exact List.isEmpty_iff.1 hnone
  have hchain : ∀ index < 2, ∀ name, after.program.chainNamed ⟨index⟩ name =
      .ok (Routine.itemsUnder name (Attempt.itemsAt ⟨index⟩ attempts)) := by
    intro index hlt name
    have hbound : index < after.program.functions.size := hsize ▸ by omega
    obtain ⟨entry, hentry⟩ := Option.isSome_iff_exists.1
      ((Arena.get?_isSome_iff after.program.functions ⟨index⟩).2 hbound)
    have hbody := hbodies ⟨index⟩ entry hentry
    rw [hempty index hlt, List.nil_append] at hbody
    exact hbody.chains name
  refine ⟨attempts, after, hrun, ?_, ?_, ?_⟩
  · rw [hchain 0 (by decide), hzero]
    rfl
  · rw [hchain 0 (by decide), hzero]
    rfl
  · rw [hchain 1 (by decide), hone]
    rfl

end ChainIR
