import Mathlib
import ChainIR.Proofs.Growth

/-! # Values of instructions and globals

An instruction can be asked for the value of its result, and a global for the value of itself. Such
an entity (`Denotable`) remembers its value, and the arena of values has an entry that says which
entity the value denotes. The two agree (`Program.ValuesAgree`): the value that an entity remembers
is the only one that denotes it. Nothing but the first request for its value makes such an entry
(`Denotable.request_eq`), so all successful requests keep up the agreement
(`Request.valuesAgree_of_run`), and an entity gives the same value whenever it is asked
(`Program.Reachable.entityValues`). -/

namespace ChainIR

/-! ## Entities and their values -/

/-- What a value can denote besides itself: an instruction, by its result, or a global. -/
inductive Denotable
  | instruction (ref : InstructionRef)
  | global (ref : GlobalRef)
  deriving DecidableEq

namespace Denotable

/-- The entry of a value that denotes the entity. -/
def denoting : Denotable → Value
  | instruction ref => .result ref
  | global ref => .global ref

/-- The entity as an instruction. -/
def instruction? : Denotable → Option InstructionRef
  | instruction ref => some ref
  | global _ => none

/-- Ask for the value of the entity. -/
def request : Denotable → Edit ValueRef
  | instruction ref => Edit.resultValue ref
  | global ref => Edit.globalValue ref

/-- The program has the entity. -/
def IsIn (program : Program) : Denotable → Prop
  | instruction ref => ∃ entry, program.instructions.get? ref = some entry
  | global ref => ∃ entry, program.globals.get? ref = some entry

/-- The value that the entity remembers. -/
def remembered (program : Program) : Denotable → Option ValueRef
  | instruction ref => (program.instructions.get? ref).bind Instruction.result
  | global ref => (program.globals.get? ref).bind Global.result

/-- The program with a new value for the entity, which remembers it. -/
def valued (program : Program) : Denotable → Program
  | instruction ref => { program with
      values := (program.values.alloc (.result ref)).2
      instructions := program.instructions.modify ref fun entry =>
        { entry with result := some program.values.nextRef } }
  | global ref => { program with
      values := (program.values.alloc (.global ref)).2
      globals := program.globals.modify ref fun entry =>
        { entry with result := some program.values.nextRef } }

variable {program after : Program} {entity : Denotable}

/-- A value is of one entity. -/
theorem denoting_injective : Function.Injective denoting := by
  rintro (left | left) (right | right) hequal <;> cases hequal <;> rfl

/-- Giving an entity its value adds that value alone. -/
theorem values_valued (program : Program) (entity : Denotable) :
    (entity.valued program).values = (program.values.alloc entity.denoting).2 := by
  cases entity <;> rfl

/-- Only the entity that gets a new value remembers another one than before. -/
theorem remembered_valued (h : entity.IsIn program) (other : Denotable) :
    other.remembered (entity.valued program) =
      if other = entity then some program.values.nextRef else other.remembered program := by
  cases entity with
  | instruction ref =>
    obtain ⟨entry, hentry⟩ := h
    cases other with
    | instruction other =>
      rw [remembered, valued, Arena.get?_modify, hentry]
      by_cases hsame : other = ref
      · rw [if_pos hsame, if_pos (congrArg instruction hsame)]
        rfl
      · rw [if_neg hsame, if_neg fun hequal => hsame (Denotable.instruction.inj hequal)]
        rfl
    | global other => exact (if_neg nofun).symm
  | global ref =>
    obtain ⟨entry, hentry⟩ := h
    cases other with
    | instruction other => exact (if_neg nofun).symm
    | global other =>
      rw [remembered, valued, Arena.get?_modify, hentry]
      by_cases hsame : other = ref
      · rw [if_pos hsame, if_pos (congrArg global hsame)]
        rfl
      · rw [if_neg hsame, if_neg fun hequal => hsame (Denotable.global.inj hequal)]
        rfl

/-- An entity gives the value that it remembers, or else a new one. -/
theorem request_eq (h : entity.IsIn program) : entity.request program =
    .ok (match entity.remembered program with
      | some value => (value, program)
      | none => (program.values.nextRef, entity.valued program)) := by
  cases entity with
  | instruction ref =>
    obtain ⟨entry, hentry⟩ := h
    rw [request, Edit.resultValue, Step.bind_of_ok (Edit.ask_of_ok (Program.found_eq_ok.2 hentry)),
      remembered, hentry, Option.bind_some]
    cases entry.result with
    | some value => rfl
    | none =>
      -- the new value is noted in the entry, which exists
      have hupdate : Edit.updateInstruction ref (fun entry =>
          { entry with result := some program.values.nextRef })
          { program with values := (program.values.alloc (.result ref)).2 } =
          .ok ((), (instruction ref).valued program) := by
        apply Edit.updateInstruction_of_some
        exact ⟨entry, hentry⟩
      exact (Step.bind_of_ok rfl).trans (Step.bind_of_ok hupdate)
  | global ref =>
    obtain ⟨entry, hentry⟩ := h
    rw [request, Edit.globalValue, Step.bind_of_ok (Edit.ask_of_ok (Program.found_eq_ok.2 hentry)),
      remembered, hentry, Option.bind_some]
    cases entry.result with
    | some value => rfl
    | none =>
      have hupdate : Edit.updateGlobal ref (fun entry =>
          { entry with result := some program.values.nextRef })
          { program with values := (program.values.alloc (.global ref)).2 } =
          .ok ((), (global ref).valued program) := by
        apply Edit.updateGlobal_of_some
        exact ⟨entry, hentry⟩
      exact (Step.bind_of_ok rfl).trans (Step.bind_of_ok hupdate)

/-- To ask an entity for its value is a request. -/
theorem exists_request_of_request {value : ValueRef}
    (hrun : entity.request program = .ok (value, after)) :
    ∃ request : Request, request.run program = .ok ((), after) := by
  cases entity with
  | instruction ref => exact ⟨.getResult ref, (Step.drop_eq_ok fun _ => rfl).2 ⟨value, hrun⟩⟩
  | global ref => exact ⟨.getGlobal ref, (Step.drop_eq_ok fun _ => rfl).2 ⟨value, hrun⟩⟩

/-- Whoever gives a value is in the program. -/
theorem isIn_of_request {value : ValueRef} (h : entity.request program = .ok (value, after)) :
    entity.IsIn program := by
  cases entity with
  | instruction ref =>
    obtain ⟨entry, hentry, -⟩ := Edit.resultValue_cases h
    exact ⟨entry, hentry⟩
  | global ref =>
    obtain ⟨entry, hentry, -⟩ := Edit.globalValue_cases h
    exact ⟨entry, hentry⟩

end Denotable

namespace Program

/-! ## Cache and arena -/

/-- The value that an entity remembers is the one value that denotes it. -/
def ValuesAgree (program : Program) : Prop :=
  ∀ value (entity : Denotable), program.values.get? value = some entity.denoting ↔
    entity.remembered program = some value

/-- There are no values, instructions and globals in the initial program. -/
theorem valuesAgree_initial : ValuesAgree initial := by
  have hvalues : initial.values.size = 0 := by decide +kernel
  have hinstructions : initial.instructions.size = 0 := by decide +kernel
  have hglobals : initial.globals.size = 0 := by decide +kernel
  generalize initial = program at hvalues hinstructions hglobals ⊢
  intro value entity
  refine iff_of_false (fun hvalue => ?_) fun hremembered => ?_
  · exact absurd (Arena.lt_size_of_get? hvalue) (by omega)
  · cases entity with
    | instruction ref =>
      obtain ⟨entry, hentry, -⟩ := Option.bind_eq_some_iff.1 hremembered
      exact absurd (Arena.lt_size_of_get? hentry) (by omega)
    | global ref =>
      obtain ⟨entry, hentry, -⟩ := Option.bind_eq_some_iff.1 hremembered
      exact absurd (Arena.lt_size_of_get? hentry) (by omega)

namespace ValuesAgree

variable {program after : Program} {chains : LabelRef → List InstructionRef}

/-- Values stay as they are, and so does what entities remember. -/
theorem congr (h : program.ValuesAgree) (hvalues : after.values = program.values)
    (hinstructions : ∀ ref, (after.instructions.get? ref).bind Instruction.result =
      (program.instructions.get? ref).bind Instruction.result)
    (hglobals : ∀ ref, (after.globals.get? ref).bind Global.result =
      (program.globals.get? ref).bind Global.result) : after.ValuesAgree := by
  have hremembered (entity : Denotable) :
      entity.remembered after = entity.remembered program := by
    cases entity with
    | instruction ref => exact hinstructions ref
    | global ref => exact hglobals ref
  intro value entity
  rw [hvalues, hremembered]
  exact h value entity

/-- An entity without value gets one. -/
theorem valued (h : program.ValuesAgree) {entity : Denotable} (hentity : entity.IsIn program)
    (hnone : entity.remembered program = none) : (entity.valued program).ValuesAgree := by
  intro value other
  rw [Denotable.values_valued, Arena.get?_alloc, Denotable.remembered_valued hentity]
  by_cases hnew : value = program.values.nextRef
  · rw [if_pos hnew, hnew]
    by_cases hother : other = entity
    · rw [if_pos hother, hother]
      exact iff_of_true rfl rfl
    · rw [if_neg hother]
      refine iff_of_false (fun hsame => hother ?_) fun hremembered => ?_
      · exact (Denotable.denoting_injective (Option.some.inj hsame)).symm
      · exact nomatch program.values.get?_nextRef.symm.trans ((h _ other).2 hremembered)
  · rw [if_neg hnew, h value other]
    by_cases hother : other = entity
    · rw [if_pos hother, hother, hnone]
      exact iff_of_false nofun fun hsame => hnew (Option.some.inj hsame).symm
    · rw [if_neg hother]

/-- An entity is asked for its value. -/
theorem request (h : program.ValuesAgree) (entity : Denotable) {value : ValueRef}
    (hrun : entity.request program = .ok (value, after)) : after.ValuesAgree := by
  have hentity := Denotable.isIn_of_request hrun
  rw [Denotable.request_eq hentity] at hrun
  cases hremembered : entity.remembered program with
  | some old =>
    rw [hremembered] at hrun
    obtain ⟨-, rfl⟩ := Prod.mk.inj (Except.ok.inj hrun)
    exact h
  | none =>
    rw [hremembered] at hrun
    obtain ⟨-, rfl⟩ := Prod.mk.inj (Except.ok.inj hrun)
    exact h.valued hentity hremembered

/-- A value is created that denotes no entity. -/
theorem addValue (h : program.ValuesAgree) {value : Value}
    (hvalue : ∀ entity : Denotable, value ≠ entity.denoting) {ref : ValueRef}
    (hrun : Edit.addValue value program = .ok (ref, after)) : after.ValuesAgree := by
  obtain ⟨-, rfl⟩ := Prod.mk.inj (Except.ok.inj hrun)
  intro other entity
  have hremembered : entity.remembered { program with values := (program.values.alloc value).2 } =
      entity.remembered program := by cases entity <;> rfl
  show (program.values.alloc value).2.get? other = _ ↔
    entity.remembered { program with values := (program.values.alloc value).2 } = _
  rw [hremembered, ← h other entity, Arena.get?_alloc]
  by_cases hnew : other = program.values.nextRef
  · rw [if_pos hnew, hnew, program.values.get?_nextRef]
    exact iff_of_false (fun hsame => hvalue entity (Option.some.inj hsame)) nofun
  · rw [if_neg hnew]

/-- Types are added. -/
theorem addTypes (h : program.ValuesAgree) (hadds : program.AddsTypes after) :
    after.ValuesAgree := by
  refine h.congr ?_ (fun ref => ?_) fun ref => ?_ <;> rw [hadds.rest]

/-- An instruction is created, without a value. -/
theorem addInstruction (h : program.ValuesAgree) {operation : Operation} {ref : InstructionRef}
    (hrun : Edit.addInstruction operation program = .ok (ref, after)) : after.ValuesAgree := by
  obtain ⟨-, rfl⟩ := Prod.mk.inj (Except.ok.inj hrun)
  refine h.congr rfl (fun other => ?_) fun _ => rfl
  show ((program.instructions.alloc _).2.get? other).bind Instruction.result = _
  rw [Arena.get?_alloc]
  by_cases hnew : other = program.instructions.nextRef
  · rw [if_pos hnew, hnew, program.instructions.get?_nextRef]
    rfl
  · rw [if_neg hnew]

/-- A global is defined, without a value. -/
theorem defineGlobal (h : program.ValuesAgree) {name : String} {initial : Constant}
    {ref : GlobalRef} (hrun : Edit.defineGlobal name initial program = .ok (ref, after)) :
    after.ValuesAgree := by
  obtain ⟨-, rfl⟩ := Prod.mk.inj (Except.ok.inj
    ((Edit.defineGlobal_of_none initial (Edit.new_of_defineGlobal hrun)).symm.trans hrun))
  refine h.congr rfl (fun _ => rfl) fun other => ?_
  show ((program.globals.alloc _).2.get? other).bind Global.result = _
  rw [Arena.get?_alloc]
  by_cases hnew : other = program.globals.nextRef
  · rw [if_pos hnew, hnew, program.globals.get?_nextRef]
    rfl
  · rw [if_neg hnew]

/-- An instruction is linked into a chain. -/
theorem relinks (h : program.ValuesAgree) {label : LabelRef} {ref : InstructionRef}
    (hrelinks : program.Relinks label ref after) : after.ValuesAgree := by
  refine h.congr ?_ (fun other => ?_) fun other => ?_
  · rw [hrelinks.rest]
  · have hsame := congrArg (Option.bind · Instruction.result) (hrelinks.instructions other)
    rw [Option.bind_map, Option.bind_map] at hsame
    exact hsame
  · rw [hrelinks.rest]

/-- An instruction is appended to a label. -/
theorem append (h : program.ValuesAgree) (hlinks : program.Links chains) {function : FunctionRef}
    {name : String} {ref : InstructionRef}
    (hrun : Edit.append function name ref program = .ok ((), after)) : after.ValuesAgree := by
  obtain ⟨label, labelled, pushed, hlabel, -, hrelinks, -, rfl⟩ := Edit.append_parts hlinks hrun
  have hlabelled : labelled.ValuesAgree := by
    refine h.congr ?_ (fun ref => ?_) fun ref => ?_ <;> rw [Edit.labelNamed_rest hlabel]
  exact (hlabelled.relinks hrelinks).congr rfl (fun _ => rfl) fun _ => rfl

end ValuesAgree

end Program

/-- **Requests keep cache and arena in agreement.** -/
theorem Request.valuesAgree_of_run {request : Request} {program after : Program}
    (hreachable : program.Reachable) (h : program.ValuesAgree)
    (hrun : request.run program = .ok ((), after)) : after.ValuesAgree := by
  obtain ⟨layout, hbuilt⟩ := hreachable.requested.exists_built
  obtain ⟨chains, hlinks⟩ := hbuilt.links
  -- the constant of a literal adds types
  have hliteral {literal : Literal} {constant : Constant} {middle : Program}
      (hconstant : Edit.constantOf literal program = .ok (constant, middle)) :
      middle.ValuesAgree := by
    obtain ⟨request, hrequest⟩ := Edit.exists_request_of_constantOf hconstant
    exact h.addTypes (TypeRequest.addsTypes_of_run hbuilt.interned hrequest).1
  cases request with
  | getType request => exact h.addTypes (TypeRequest.addsTypes_of_run hbuilt.interned hrun).1
  | addRegister name type =>
    obtain ⟨ref, hadd⟩ := (Step.drop_eq_ok fun _ => rfl).1 hrun
    exact h.addValue (by rintro (_ | _) <;> exact nofun) hadd
  | addGlobalPointer name type =>
    obtain ⟨ref, hadd⟩ := (Step.drop_eq_ok fun _ => rfl).1 hrun
    exact h.addValue (by rintro (_ | _) <;> exact nofun) hadd
  | addConstant literal =>
    obtain ⟨constant, middle, hconstant, hrest⟩ := Step.bind_eq_ok.1 hrun
    obtain ⟨value, hadd⟩ := (Step.drop_eq_ok fun _ => rfl).1 hrest
    exact (hliteral hconstant).addValue (by rintro (_ | _) <;> exact nofun) hadd
  | getResult instruction =>
    obtain ⟨value, hvalue⟩ := (Step.drop_eq_ok fun _ => rfl).1 hrun
    exact h.request (.instruction instruction) hvalue
  | getGlobal global =>
    obtain ⟨value, hvalue⟩ := (Step.drop_eq_ok fun _ => rfl).1 hrun
    exact h.request (.global global) hvalue
  | addInstruction operation =>
    obtain ⟨ref, hadd⟩ := (Step.drop_eq_ok fun _ => rfl).1 hrun
    exact h.addInstruction hadd
  | declare name type =>
    obtain ⟨ref, hdeclare⟩ := (Step.drop_eq_ok fun _ => rfl).1 hrun
    obtain ⟨signature, hsignature, hnew⟩ := Edit.new_of_declareFunction hdeclare
    obtain ⟨-, rfl⟩ := Prod.mk.inj (Except.ok.inj
      ((Edit.declareFunction_of_none hsignature hnew).symm.trans hdeclare))
    exact h.congr rfl (fun _ => rfl) fun _ => rfl
  | setParams function params =>
    obtain ⟨entry, -, rfl⟩ := Edit.exists_of_updateFunction hrun
    exact h.congr rfl (fun _ => rfl) fun _ => rfl
  | define name literal =>
    obtain ⟨constant, middle, hconstant, hrest⟩ := Step.bind_eq_ok.1 hrun
    obtain ⟨ref, hdefine⟩ := (Step.drop_eq_ok fun _ => rfl).1 hrest
    exact (hliteral hconstant).defineGlobal hdefine
  | append function label instruction => exact h.append hlinks hrun
  | appendNew cursor operation =>
    obtain ⟨answer, happend⟩ := (Step.drop_eq_ok fun _ => rfl).1 hrun
    obtain ⟨ref, middle, hadd, hrest⟩ := Step.bind_eq_ok.1 happend
    have hadded := h.addInstruction hadd
    -- the new instruction may be appended, or the cursor has no function
    obtain ⟨-, -, rfl⟩ | ⟨function, -, -, hlinked⟩ := Edit.cursorAppend_cases hrest
    · exact hadded
    · exact hadded.append (hlinks.grows (Edit.develops_of_addInstruction hadd).toGrows) hlinked
  | pushBack label instruction =>
    obtain ⟨entry, ends, hentry, hunlinked, hends⟩ := Edit.free_of_pushBack hrun
    obtain ⟨-, hrelinks⟩ := (Edit.pushBack_links hlinks hends hentry hunlinked).of_eq_ok hrun
    exact h.relinks hrelinks
  | insertAfter point instruction =>
    obtain ⟨place, label, entry, hplace, hlabel, hentry, hunlinked⟩ := Edit.free_of_insertAfter hrun
    obtain ⟨position, -, hyields⟩ := Edit.insertAfter_links hlinks hplace hlabel hentry hunlinked
    exact h.relinks (hyields.of_eq_ok hrun).2

namespace Program

variable {program after : Program} {entity : Denotable}

/-- However a program has come about, the values that entities remember are those that denote
them. -/
theorem Reachable.valuesAgree (h : program.Reachable) : program.ValuesAgree := by
  obtain ⟨requests, hrun⟩ := h.requested
  -- all programs on the way are reachable
  suffices hall : ∀ {requests : List Request} {start : Program}, start.Reachable →
      start.ValuesAgree → Request.runAll requests start = .ok ((), program) →
      program.ValuesAgree from hall .initial valuesAgree_initial hrun
  intro requests
  induction requests with
  | nil =>
    intro start _ hstart hrun
    obtain rfl : start = program := by simpa [Request.runAll] using hrun
    exact hstart
  | cons request requests ih =>
    intro start hreachable hstart hrun
    rw [Request.runAll, List.forM_cons] at hrun
    obtain ⟨⟨⟩, middle, hfirst, hrest⟩ := Step.bind_eq_ok.1 hrun
    exact ih (.request hreachable request hfirst)
      (request.valuesAgree_of_run hreachable hstart hfirst) hrest

/-! ## Values as programs grow -/

/-- What an entity remembers, it goes on to remember. -/
theorem OnlyGrows.remembered (h : program.OnlyGrows after) {value : ValueRef}
    (hvalue : entity.remembered program = some value) : entity.remembered after = some value := by
  cases entity with
  | instruction ref =>
    obtain ⟨entry, hentry, hresult⟩ := Option.bind_eq_some_iff.1 hvalue
    obtain ⟨later, hlater, hpersists⟩ := h.instructions ref entry hentry
    exact Option.bind_eq_some_iff.2 ⟨later, hlater, hpersists.result value hresult⟩
  | global ref =>
    obtain ⟨entry, hentry, hresult⟩ := Option.bind_eq_some_iff.1 hvalue
    obtain ⟨later, hlater, hpersists⟩ := h.globals ref entry hentry
    exact Option.bind_eq_some_iff.2 ⟨later, hlater, hpersists.result value hresult⟩

/-- An entity that remembers a value is in the program. -/
theorem isIn_of_remembered {value : ValueRef} (h : entity.remembered program = some value) :
    entity.IsIn program := by
  cases entity with
  | instruction ref =>
    obtain ⟨entry, hentry, -⟩ := Option.bind_eq_some_iff.1 h
    exact ⟨entry, hentry⟩
  | global ref =>
    obtain ⟨entry, hentry, -⟩ := Option.bind_eq_some_iff.1 h
    exact ⟨entry, hentry⟩

/-- What an entity gives, it remembers. -/
theorem remembered_of_request {value : ValueRef}
    (h : entity.request program = .ok (value, after)) : entity.remembered after = some value := by
  have hentity := Denotable.isIn_of_request h
  rw [Denotable.request_eq hentity] at h
  cases hremembered : entity.remembered program with
  | some old =>
    rw [hremembered] at h
    obtain ⟨rfl, rfl⟩ := Prod.mk.inj (Except.ok.inj h)
    exact hremembered
  | none =>
    rw [hremembered] at h
    obtain ⟨rfl, rfl⟩ := Prod.mk.inj (Except.ok.inj h)
    rw [Denotable.remembered_valued hentity, if_pos rfl]

/-- A value that denotes an entity is told as the instruction that it is. -/
theorem valueInstruction?_of_denoting {value : ValueRef}
    (h : program.values.get? value = some entity.denoting) :
    program.valueInstruction? value = .ok entity.instruction? := by
  have hvalue : program.value value = .ok entity.denoting := found_eq_ok.2 h
  rw [valueInstruction?, hvalue]
  cases entity <;> rfl

/-- **Instructions and globals have one value each.** However a program has come about, the value
that an instruction or a global remembers is the only one that denotes it. One that is asked for its
value gives the one that it remembers, and nothing changes, or else a new one, which it remembers
from then on. Whatever requests and lines follow, it gives the same value again, nothing else gives
this value, and the value tells whether it is the result of an instruction, and of which. -/
theorem Reachable.entityValues (h : program.Reachable) :
    program.ValuesAgree ∧
      (∀ (left right : ValueRef) (entity : Denotable),
        program.values.get? left = some entity.denoting →
        program.values.get? right = some entity.denoting → left = right) ∧
      ∀ entity : Denotable, entity.IsIn program → ∃ value middle,
        entity.request program = .ok (value, middle) ∧
        (entity.remembered program = some value ∧ middle = program ∨
          entity.remembered program = none ∧ value = program.values.nextRef ∧
            middle = entity.valued program) ∧
        ∀ after, middle.Leads after → after.ValuesAgree ∧
          entity.request after = .ok (value, after) ∧
          after.valueInstruction? value = .ok entity.instruction? ∧
          ∀ (other : Denotable) (last : Program),
            other.request after = .ok (value, last) → other = entity := by
  have hagree := h.valuesAgree
  refine ⟨hagree, fun left right entity hleft hright => ?_, fun entity hentity => ?_⟩
  · rw [hagree] at hleft hright
    exact Option.some.inj (hleft.symm.trans hright)
  obtain ⟨value, middle, hrun, hcases⟩ : ∃ value middle,
      entity.request program = .ok (value, middle) ∧
        (entity.remembered program = some value ∧ middle = program ∨
          entity.remembered program = none ∧ value = program.values.nextRef ∧
            middle = entity.valued program) := by
    rw [Denotable.request_eq hentity]
    cases hremembered : entity.remembered program with
    | some value => exact ⟨value, program, rfl, .inl ⟨rfl, rfl⟩⟩
    | none => exact ⟨_, _, rfl, .inr ⟨rfl, rfl, rfl⟩⟩
  refine ⟨value, middle, hrun, hcases, fun after hleads => ?_⟩
  obtain ⟨request, hrequest⟩ := Denotable.exists_request_of_request hrun
  have hmiddle : middle.Reachable := .request h request hrequest
  -- whatever follows, the entity remembers what it has given
  have hlater {later : Program} (hlater : middle.Leads later) :
      later.ValuesAgree ∧ entity.remembered later = some value := by
    have hbecomes := hlater.becomes hmiddle
    exact ⟨(hbecomes.reachable hmiddle).valuesAgree,
      (hbecomes.onlyGrows hmiddle).remembered (remembered_of_request hrun)⟩
  obtain ⟨hagree', hremembered⟩ := hlater hleads
  refine ⟨hagree', ?_, valueInstruction?_of_denoting ((hagree' value entity).2 hremembered),
    fun other last hother => ?_⟩
  · rw [Denotable.request_eq (isIn_of_remembered hremembered), hremembered]
  · obtain ⟨again, hagain⟩ := Denotable.exists_request_of_request hother
    obtain ⟨hagree'', hstill⟩ := hlater (.request hleads again hagain)
    have hvalue := (hagree'' value entity).2 hstill
    have hvalue' := (hagree'' value other).2 (remembered_of_request hother)
    exact Denotable.denoting_injective (Option.some.inj (hvalue'.symm.trans hvalue))

/-- An instruction is asked for its value behind a register and the value of a global, and once more
behind another register. -/
theorem entityValues_asked : ∃ program middle after, Request.runAll [.define "g" (.str "x"),
      .addInstruction (.alloc ⟨1⟩), .addRegister "a" ⟨1⟩, .getGlobal ⟨0⟩] initial =
      .ok ((), program) ∧
    (Denotable.instruction ⟨0⟩).request program = .ok (⟨2⟩, middle) ∧
    (Request.addRegister "b" ⟨1⟩).run middle = .ok ((), after) ∧
    program.ValuesAgree ∧ after.ValuesAgree ∧ after.values.size = 4 ∧
    (Denotable.instruction ⟨0⟩).request after = .ok (⟨2⟩, after) ∧
    after.valueInstruction? ⟨2⟩ = .ok (some ⟨0⟩) := by
  have hbuilt : Step.leadsTo (Request.runAll [.define "g" (.str "x"),
      .addInstruction (.alloc ⟨1⟩), .addRegister "a" ⟨1⟩, .getGlobal ⟨0⟩]) initial (fun program =>
        program.values.nextRef = ⟨2⟩ && program.instructions.size = 1 &&
        (Denotable.instruction ⟨0⟩).remembered program = none) = true := by
    decide +kernel
  obtain ⟨⟨⟩, program, hrun, htest⟩ := Step.exists_of_leadsTo hbuilt
  simp only [Bool.and_eq_true, decide_eq_true_eq] at htest
  obtain ⟨⟨hnext, hsize⟩, hnone⟩ := htest
  have hisIn : (Denotable.instruction ⟨0⟩).IsIn program := Option.isSome_iff_exists.1
    ((Arena.get?_isSome_iff program.instructions ⟨0⟩).2 (by simp [hsize]))
  obtain ⟨hagree, -, hvalues⟩ := (Reachable.initial.runAll hrun).1.entityValues
  obtain ⟨value, middle, hrequest, hcases, hlater⟩ := hvalues _ hisIn
  -- the value is new, since none is remembered
  obtain ⟨hold, -⟩ | ⟨-, rfl, rfl⟩ := hcases
  · exact nomatch hnone.symm.trans hold
  obtain ⟨hagree', hagain, htold, -⟩ := hlater _ (.request .refl (.addRegister "b" ⟨1⟩) rfl)
  rw [hnext] at hrequest hagain htold
  refine ⟨program, _, _, hrun, hrequest, rfl, hagree, hagree', ?_, hagain, htold⟩
  have hcount : program.values.size = 2 := congrArg Ref.index hnext
  show ((program.values.alloc (.result ⟨0⟩)).2.alloc (.register "b" ⟨1⟩)).2.size = 4
  rw [Arena.size_alloc, Arena.size_alloc, hcount]

end Program

end ChainIR
