import Mathlib
import ChainIR.Reading.Reader
import ChainIR.Proofs.Reading.Directive

/-! # What reading a source keeps up

Between two lines of a source the program is shown by an outline in which the calls of a function
mean the overloads that the functions declared before its lines tell (`Outline.Orderly`). While a
function is open nothing is declared, so its calls mean what all functions tell that are declared by
then (`Position.Inside`), and all calls of a function are read with the same functions at hand. Every
line keeps this up, whatever it says (`LineReader.Ensures.sourceLine`), so reading a source never
fails but by a proper rejection. -/

namespace ChainIR

/-! ## Calls that mean what they meant -/

/-- Every call in a function means what the given functions tell. -/
def Routine.MeantAmong (routine : Routine (Statement Callee)) (prototypes : List Prototype) : Prop :=
  ∀ block ∈ routine.blocks, ∀ statement ∈ block.statements,
    statement.written.resolve prototypes = some statement

/-- A function without lines has no calls. -/
theorem Routine.meantAmong_of_nil {routine : Routine (Statement Callee)} (h : routine.blocks = [])
    (prototypes : List Prototype) : routine.MeantAmong prototypes := by
  intro block hblock
  rw [h] at hblock
  exact absurd hblock List.not_mem_nil

/-- One more line that means what the given functions tell. -/
theorem Routine.MeantAmong.append {routine : Routine (Statement Callee)}
    {prototypes : List Prototype} (h : routine.MeantAmong prototypes) (name : String)
    {statement : Statement Callee}
    (hmeant : statement.written.resolve prototypes = some statement) :
    (routine.append name statement).MeantAmong prototypes := by
  intro block hblock other hother
  rcases Routine.mem_append_blocks hblock hother with ⟨old, hold, hin⟩ | rfl
  · exact h old hold other hin
  · exact hmeant

namespace Outline

/-- The builtin functions stand in front, and the calls of a function mean what they meant when its
lines were read: the overloads among some of the functions, at least the builtin ones and those up
to the function itself. -/
structure Orderly (outline : Outline (Statement Callee)) : Prop where
  /-- The builtin functions stand in front. -/
  builtins : builtinPrototypes <+: outline.prototypes
  /-- Calls mean what they meant. -/
  calls : ∀ index routine, outline.routines[index]? = some routine →
    ∃ count, max Program.builtinCount (index + 1) ≤ count ∧ count ≤ outline.routines.length ∧
      routine.MeantAmong (outline.prototypes.take count)

namespace Orderly

variable {outline : Outline (Statement Callee)}

/-- The builtin functions alone. -/
theorem initial : (ofPrototypes builtinPrototypes : Outline (Statement Callee)).Orderly where
  builtins := by rw [prototypes_ofPrototypes]
  calls index routine hroutine := by
    have hlt := (List.getElem?_eq_some_iff.1 hroutine).1
    refine ⟨_, max_le ?_ hlt, le_rfl, ?_⟩
    · rw [ofPrototypes, List.length_map]
      exact length_builtinPrototypes.ge
    · rw [ofPrototypes, List.getElem?_map] at hroutine
      obtain ⟨prototype, -, rfl⟩ := Option.map_eq_some_iff.1 hroutine
      exact Routine.meantAmong_of_nil rfl _

/-- By now there are the builtin functions and those up to any function that there is. -/
theorem max_le_length (h : outline.Orderly) {index : Nat} (hlt : index < outline.routines.length) :
    max Program.builtinCount (index + 1) ≤ outline.routines.length := by
  have hbuiltins := h.builtins.length_le
  rw [outline.length_prototypes] at hbuiltins
  exact max_le hbuiltins hlt

/-- Declaring a function changes no call. -/
theorem declare (h : outline.Orderly) (prototype : Prototype) :
    (outline.declare prototype).Orderly where
  builtins := by
    rw [prototypes_declare]
    exact h.builtins.trans (List.prefix_append _ _)
  calls index routine hroutine := by
    have hlt := (List.getElem?_eq_some_iff.1 hroutine).1
    rcases getElem?_routines_declare.1 hroutine with hold | ⟨-, rfl⟩
    · obtain ⟨count, hlower, hupper, hmeant⟩ := h.calls index routine hold
      refine ⟨count, hlower, hupper.trans (by simp [Outline.declare]), ?_⟩
      rw [prototypes_declare, List.take_append_of_le_length (outline.length_prototypes ▸ hupper)]
      exact hmeant
    · have hbuiltins := h.builtins.length_le
      rw [outline.length_prototypes] at hbuiltins
      refine ⟨_, max_le (hbuiltins.trans ?_) hlt, le_rfl, Routine.meantAmong_of_nil rfl _⟩
      simp [Outline.declare]

/-- An outline that is orderly stays so with a further declaration. -/
theorem including (h : outline.Orderly) (prototype : Prototype) :
    (outline.including prototype).Orderly := by
  rw [Outline.including]
  split
  · exact h
  · exact h.declare prototype

/-- Defining a global changes no call. -/
theorem define (h : outline.Orderly) (name : String) (literal : Literal) :
    (outline.define name literal).Orderly where
  builtins := h.builtins
  calls := h.calls

/-- A change of a function that keeps the meaning of its calls, or gives it calls that mean what the
prototypes say by now. -/
theorem modify (h : outline.Orderly) {function : FunctionRef}
    {change : Routine (Statement Callee) → Routine (Statement Callee)}
    (hprototype : ∀ routine, (change routine).prototype = routine.prototype)
    (hchange : ∀ routine, outline.routines[function.index]? = some routine →
      (∀ prototypes, routine.MeantAmong prototypes → (change routine).MeantAmong prototypes) ∨
        (change routine).MeantAmong outline.prototypes) :
    (outline.modify function change).Orderly where
  builtins := by
    rw [outline.prototypes_modify function hprototype]
    exact h.builtins
  calls index routine hroutine := by
    have hlength : (outline.modify function change).routines.length = outline.routines.length :=
      List.length_modify ..
    rw [outline.prototypes_modify function hprototype, hlength]
    rw [getElem?_routines_modify] at hroutine
    split at hroutine
    · next hindex =>
      subst hindex
      obtain ⟨old, hold, rfl⟩ := Option.map_eq_some_iff.1 hroutine
      -- what was meant among fewer prototypes stays so, or the change is meant among all
      rcases hchange old hold with hkept | hmeant
      · obtain ⟨count, hlower, hupper, hmeant⟩ := h.calls _ old hold
        exact ⟨count, hlower, hupper, hkept _ hmeant⟩
      · refine ⟨_, h.max_le_length (List.getElem?_eq_some_iff.1 hold).1, le_rfl, ?_⟩
        rwa [← outline.length_prototypes, List.take_length]
    · exact h.calls index routine hroutine

/-- Naming parameters changes no call. -/
theorem withParams (h : outline.Orderly) (function : FunctionRef) (params : List String) :
    (outline.modify function (·.withParams params)).Orderly :=
  h.modify (fun _ => rfl) fun _ _ => .inl fun _ hmeant => hmeant

/-- One more line in a function whose calls mean what the prototypes say by now. -/
theorem append (h : outline.Orderly) {function : FunctionRef} {routine : Routine (Statement Callee)}
    (hroutine : outline.routines[function.index]? = some routine)
    (hopen : routine.MeantAmong outline.prototypes) (name : String) {statement : Statement Callee}
    (hmeant : statement.written.resolve outline.prototypes = some statement) :
    (outline.modify function (·.append name statement)).Orderly := by
  refine h.modify (Routine.prototype_append name statement) fun found hfound => .inr ?_
  obtain rfl := Option.some.inj (hroutine.symm.trans hfound)
  exact hopen.append name hmeant

end Orderly

end Outline

/-- Inside of a function the cursor is at a function of the outline, and the calls that have been
read in it mean what all functions tell that are declared by now. -/
def Position.Inside (position : Position) (outline : Outline (Statement Callee)) : Prop :=
  position.openFunction.isSome →
    ∃ function routine, position.cursor.function = some function ∧
      outline.routines[function.index]? = some routine ∧ routine.MeantAmong outline.prototypes

/-! ## Lines -/

namespace LineReader.Ensures

variable {state : LineState} {outline : Outline (Statement Callee)}
  (hshown : state.program.ShownBy outline) (hendless : state.Endless)

include hshown hendless

/-- Reading parameters. -/
theorem paramsWithin (count : Nat) : Ensures (LineReader.paramsWithin count) state
    fun result after => state.Passes after ∧ ∃ names,
      List.Forall₂ (fun param name => after.program.typeName param.1 = .ok name) result.1 names := by
  induction count generalizing state with
  | zero => exact .pure ⟨.refl state, [], .nil⟩
  | succ count ih =>
    rw [LineReader.paramsWithin]
    refine .atEnd ?_
    split
    · exact .pure ⟨.refl state, [], .nil⟩
    refine .atWord ?_
    split
    · refine (take hendless _).bind fun _ behind hbehind => ?_
      refine (finish (hbehind.2.1.endless hendless)).bind fun _ after hafter => ?_
      exact .pure ⟨hafter ▸ hbehind.2.1, [], .nil⟩
    -- one parameter is two tokens, a type and a name
    refine (type hshown hendless).bind fun ref typed htyped => ?_
    obtain ⟨htype, name, hname⟩ := htyped
    refine (take (htype.endless hendless) _).bind fun token named hnamed => ?_
    obtain ⟨-, htoken, -⟩ := hnamed
    have hpasses := htype.trans htoken
    refine (ih (hshown.grows hpasses.program) (hpasses.endless hendless)).bind
      fun result after hafter => ?_
    obtain ⟨hrest, names, hnames⟩ := hafter
    exact .pure ⟨hpasses.trans hrest, name :: names, .cons
      ((htoken.trans hrest).program.toExtends.typeName hname) hnames⟩

/-- Reading a header. -/
theorem header : Ensures LineReader.header state fun header after => after.Endless ∧
    ∃ prototype, after.program.ShownBy (outline.including prototype) ∧
      after.program.typeName header.type = .ok prototype.type ∧
      (outline.including prototype).prototypes[header.function.index]? = some prototype := by
  rw [LineReader.header]
  refine (take hendless _).bind fun _ behind hbehind => ?_
  obtain ⟨-, hkeyword, -⟩ := hbehind
  refine (type (hshown.grows hkeyword.program) (hkeyword.endless hendless)).bind
    fun result typed htyped => ?_
  obtain ⟨htype, resultName, hresult⟩ := htyped
  have hpasses := hkeyword.trans htype
  refine (take (hpasses.endless hendless) _).bind fun name named hnamed => ?_
  obtain ⟨-, hname, -⟩ := hnamed
  have hpasses' := hpasses.trans hname
  refine Ensures.bind (.get (paramsWithin (hshown.grows hpasses'.program)
    (hpasses'.endless hendless) _)) fun params after hafter => ?_
  obtain ⟨hparams, names, hnames⟩ := hafter
  have hread := hpasses'.trans hparams
  -- the prototype that was read is what the function is declared with
  refine (of_yields (headerOf_yields (hshown.grows hread.program)
    ⟨name.value, resultName, names, params.2⟩
    ((hname.trans hparams).program.toExtends.typeName hresult) hnames)).mono
      fun header declared hdeclared => ?_
  obtain ⟨hdeclared, hincluded, -, -, htypeName, hprototype⟩ := hdeclared
  refine ⟨?_, _, hincluded, htypeName, hprototype⟩
  rw [hdeclared]
  exact hread.endless hendless

omit hendless in
/-- Opening a definition. -/
theorem define {header : Header} {type : String} {routine : Routine (Statement Callee)}
    (htype : state.program.typeName header.type = .ok type)
    (hroutine : outline.routines[header.function.index]? = some routine) :
    Ensures (LineReader.define header) state fun outcome after =>
      outcome.1 = ⟨⟨some header.function, ""⟩, some header.name⟩ ∧ routine.blocks = [] ∧
        after.program.ShownBy (outline.modify header.function (·.withParams header.params)) := by
  cases hblocks : routine.blocks with
  | nil =>
    refine (of_yields (define_yields hshown htype hroutine hblocks)).mono fun _ _ h => ?_
    exact ⟨h.2.1, rfl, h.2.2⟩
  | cons block blocks =>
    obtain ⟨entry, hentry, -, -, hentered⟩ := hshown.function_of_routine hroutine
    -- a function with blocks has an entry, and is not defined again
    refine bind_of_ok (ask_of_ok (Program.found_eq_ok.2 hentry)) ?_
    rw [if_pos (by simp [hentered, hblocks])]
    exact .get (reject trivial)

/-- Reading a line that defines a global. -/
theorem globalLine (position : Position) : Ensures (LineReader.globalLine position) state
    fun outcome after => outcome.1 = position ∧
      ∃ name literal, after.program.ShownBy (outline.define name literal) := by
  rw [LineReader.globalLine]
  refine (takeWord hendless _).bind fun _ behind hbehind => ?_
  obtain ⟨-, hkeyword, -⟩ := hbehind
  refine (takeKind (hkeyword.endless hendless) _).bind fun name named hnamed => ?_
  obtain ⟨-, hname, -⟩ := hnamed
  have hpasses := hkeyword.trans hname
  refine .get ?_
  split
  · exact .get (reject trivial)
  next hnew =>
  refine (constant (hshown.grows hpasses.program) (hpasses.endless hendless)).bind
    fun initial read hread => ?_
  obtain ⟨hconstant, htype⟩ := hread
  refine (finish (hconstant.endless (hpasses.endless hendless))).bind fun _ after hafter => ?_
  subst hafter
  -- to read the constant defines no global, so the name is still free
  have hfree : after.program.globalNamed? name.value = none := by
    rw [hconstant.program.globalNamed?]
    exact Option.not_isSome_iff_eq_none.1 hnew
  refine (of_yields (bindGlobal_yields (hshown.grows (hpasses.trans hconstant).program) position
    htype hfree)).mono fun outcome bound hbound => ?_
  exact ⟨hbound.2.1, _, _, hbound.2.2⟩

/-- Reading a line outside of functions. -/
theorem topLine (horderly : outline.Orderly) (position : Position)
    (hposition : position.openFunction = none) :
    Ensures (LineReader.topLine position) state fun outcome after => ∃ outline',
      after.program.ShownBy outline' ∧ outline'.Orderly ∧ outcome.1.Inside outline' := by
  have houtside : ∀ outline' : Outline (Statement Callee), position.Inside outline' := fun _ h => by
    simp [hposition] at h
  rw [LineReader.topLine]
  refine .atWord ?_
  split
  · -- a definition opens its function, in which nothing stands yet
    refine (header hshown hendless).bind fun header after hafter => ?_
    obtain ⟨-, prototype, hincluded, htype, hprototype⟩ := hafter
    obtain ⟨routine, hroutine, -⟩ := Outline.exists_routine_of_prototype hprototype
    refine (define hincluded htype hroutine).mono fun outcome defined hdefined => ?_
    obtain ⟨hposition', hempty, hdefined⟩ := hdefined
    refine ⟨_, hdefined, (horderly.including prototype).withParams _ _, fun _ => ?_⟩
    rw [hposition']
    refine ⟨header.function, routine.withParams header.params, rfl, ?_,
      Routine.meantAmong_of_nil hempty _⟩
    rw [Outline.getElem?_routines_modify, if_pos rfl, hroutine]
    rfl
  refine .atWord ?_
  split
  · refine (header hshown hendless).bind fun header after hafter => ?_
    obtain ⟨-, prototype, hincluded, htype, hprototype⟩ := hafter
    obtain ⟨routine, hroutine, -⟩ := Outline.exists_routine_of_prototype hprototype
    refine (of_yields (declare_yields hincluded position htype hroutine)).mono
      fun outcome declared hdeclared => ?_
    obtain ⟨-, hposition', hdeclared⟩ := hdeclared
    refine ⟨_, hdeclared, ?_, hposition' ▸ houtside _⟩
    split
    · exact (horderly.including prototype).withParams _ _
    · exact horderly.including prototype
  refine .atWord ?_
  split
  · refine (globalLine hshown hendless position).mono fun outcome after hafter => ?_
    obtain ⟨hposition', name, literal, hafter⟩ := hafter
    exact ⟨_, hafter, horderly.define name literal, hposition' ▸ houtside _⟩
  refine .atWord ?_
  split
  · exact .get (reject trivial)
  · rw [LineReader.skipped]
    exact .get (.pure ⟨outline, hshown, horderly, houtside outline⟩)

/-- Reading a line inside a function. -/
theorem bodyLine (horderly : outline.Orderly) {position : Position}
    (hposition : position.Inside outline) (hopen : position.openFunction.isSome) :
    Ensures (LineReader.bodyLine position) state fun outcome after => ∃ outline',
      after.program.ShownBy outline' ∧ outline'.Orderly ∧ outcome.1.Inside outline' := by
  obtain ⟨function, routine, hcursor, hroutine, hread⟩ := hposition hopen
  rw [LineReader.bodyLine]
  refine .get (.atWord ?_)
  split
  · refine (take hendless _).bind fun _ behind hbehind => ?_
    obtain ⟨-, hpasses, -⟩ := hbehind
    refine (finish (hpasses.endless hendless)).bind fun _ after hafter => ?_
    subst hafter
    exact .pure ⟨outline, hshown.grows hpasses.program, horderly, fun h => nomatch h⟩
  refine .atKind (.get ?_)
  split
  · refine (take hendless _).bind fun label after hafter => ?_
    exact .pure ⟨outline, hshown.grows hafter.2.1.program, horderly,
      fun _ => ⟨function, routine, hcursor, hroutine, hread⟩⟩
  · refine (instructionLine hshown hendless).bind fun ref behind hbehind => ?_
    obtain ⟨hpasses, statement, hholds⟩ := hbehind
    refine (of_yields (append_yields (hshown.grows hpasses.program) state.line hcursor
      (List.getElem?_eq_some_iff.1 hroutine).1 hholds)).mono fun outcome after hafter => ?_
    obtain ⟨-, hposition', hafter⟩ := hafter
    refine ⟨_, hafter, horderly.append hroutine hread _ hholds.meant, fun _ => ?_⟩
    -- an append neither moves the cursor nor declares anything
    rw [hposition', outline.prototypes_modify function (Routine.prototype_append _ statement)]
    refine ⟨function, routine.append position.cursor.label statement, hcursor, ?_,
      hread.append _ hholds.meant⟩
    rw [Outline.getElem?_routines_modify, if_pos rfl, hroutine]
    rfl

/-- Reading a line, whatever it says. -/
theorem sourceLine (horderly : outline.Orderly) {position : Position}
    (hposition : position.Inside outline) :
    Ensures (LineReader.sourceLine position) state fun outcome after => ∃ outline',
      after.program.ShownBy outline' ∧ outline'.Orderly ∧ outcome.1.Inside outline' := by
  rw [LineReader.sourceLine]
  split
  · next hopen => exact bodyLine hshown hendless horderly hposition hopen
  · next hclosed =>
    exact topLine hshown hendless horderly position (Option.not_isSome_iff_eq_none.1 hclosed)

end LineReader.Ensures

/-! ## Reading whole sources -/

namespace Reader

/-- What holds between two lines: an orderly outline shows the program, and the cursor of an open
function is at one of its functions. -/
def Sound (reader : Reader) : Prop :=
  ∃ outline, reader.program.ShownBy outline ∧ outline.Orderly ∧ reader.position.Inside outline

/-- Reading starts out right. -/
theorem sound_initial : Sound {} := by
  have hprogram : ({} : Reader).program = Program.initial := by with_reducible rfl
  refine ⟨.ofPrototypes builtinPrototypes, ?_, .initial,
    fun hopen => absurd hopen Bool.false_ne_true⟩
  rw [hprogram]
  exact Program.shownBy_initial

/-- A physical line keeps up what holds between lines, or rejects the source. -/
theorem Sound.readLine {reader : Reader} (h : reader.Sound) (line : SourceLine) :
    match reader.readLine line with
    | .ok (next, _) => next.Sound
    | .error (.rejected error) => error.Proper
    | .error (.fault _) => False := by
  cases line with
  | undecodable => exact trivial
  | text characters =>
    rw [Reader.readLine]
    dsimp only
    cases htokens : Token.ofLine (reader.line + 1) characters with
    | error error => cases error <;> exact trivial
    | ok tokens =>
      cases tokens with
      | nil => exact h
      | cons token tokens =>
        obtain ⟨outline, hshown, horderly, hinside⟩ := h
        -- no token of a line ends the source, so none is mistaken for an end that is missing
        have hread : LineReader.Ensures (LineReader.sourceLine reader.position)
            ⟨reader.line + 1, token :: tokens, reader.program⟩ _ :=
          .sourceLine hshown (Token.kind_ne_eof_of_ofLine htokens) horderly hinside
        rw [LineReader.Ensures] at hread
        dsimp only
        rw [readTokens, StateT.run]
        revert hread
        split <;> intro hread
        · next outcome after hrun =>
          rw [hrun]
          exact hread
        · next error hrun =>
          rw [hrun]
          exact hread
        · exact hread.elim

/-- The program is given out unless a function is open. -/
theorem Sound.close {reader : Reader} (h : reader.Sound) :
    match reader.close with
    | .ok program => ∃ outline, program.ShownBy outline ∧ outline.Orderly
    | .error (.rejected error) => error.Proper
    | .error (.fault _) => False := by
  obtain ⟨outline, hshown, horderly, -⟩ := h
  rw [Reader.close]
  cases reader.position.openFunction with
  | none => exact ⟨outline, hshown, horderly⟩
  | some name => exact trivial

end Reader

namespace Reading

/-- Reading the rest of a source gives a program that an orderly outline shows, or a proper
rejection. -/
theorem result_ofLines {reader : Reader} (h : reader.Sound) (source : Source) :
    match (ofLines reader source).result with
    | .ok program => ∃ outline, program.ShownBy outline ∧ outline.Orderly
    | .error (.rejected error) => error.Proper
    | .error (.fault _) => False := by
  induction source generalizing reader with
  | nil => exact h.close
  | cons line rest ih =>
    have hline := h.readLine line
    rw [ofLines]
    revert hline
    split <;> intro hline
    · next next record hrun =>
      rw [hrun]
      exact ih hline
    · next error hrun =>
      rw [hrun]
      exact hline
    · exact hline.elim

/-- An accepted source gives a program that an orderly outline shows. -/
theorem exists_outline_of_ok {source : Source} {program : Program}
    (h : (ofSource source).result = .ok program) :
    ∃ outline, program.ShownBy outline ∧ outline.Orderly := by
  have hresult := result_ofLines Reader.sound_initial source
  rw [show ofLines {} source = ofSource source from rfl, h] at hresult
  exact hresult

/-- Whether a source is accepted with a program that passes a test. -/
def accepts (source : String) (test : Program → Bool) : Bool :=
  match (ofText source).result with
  | .ok program => test program
  | .error _ => false

/-- A source that is accepted has a program. -/
theorem exists_of_accepts {source : String} {test : Program → Bool} (h : accepts source test) :
    ∃ program, (ofText source).result = .ok program ∧ test program := by
  rw [accepts] at h
  split at h
  · next program hprogram => exact ⟨program, hprogram, h⟩
  · exact absurd h Bool.false_ne_true

end Reading

end ChainIR
