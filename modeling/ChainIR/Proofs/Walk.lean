import Mathlib
import ChainIR.Proofs.Bodies

/-! # Walks through a chain from both ends

A walk takes the instructions of a chain from the front and from the back, in any order. It serves
them as a list is served that loses an element at one of its ends with each call (`Walk.serve`):
what is left between the two ends is a stretch of the chain, and a walk through a stretch goes on
through what the call leaves of it (`Chained.step_through`). So a walk through the chain of any
label gives each of its instructions once, whichever ends are asked
(`Program.Reachable.walks_through`). -/

namespace ChainIR

namespace Walk

/-! ## Calls at either end -/

/-- The ends of a walk. -/
inductive Side
  /-- The end with the first instruction. -/
  | front
  /-- The end with the last instruction. -/
  | back
  deriving DecidableEq

namespace Side

/-- A list as it is seen from one of its ends. -/
def seen : Side → List InstructionRef → List InstructionRef
  | front, refs => refs
  | back, refs => refs.reverse

/-- A list without the element at one of its ends. -/
def shorten : Side → List InstructionRef → List InstructionRef
  | front, refs => refs.tail
  | back, refs => refs.dropLast

@[simp] theorem length_seen (side : Side) (refs : List InstructionRef) :
    (side.seen refs).length = refs.length := by
  cases side with
  | front => rfl
  | back => exact List.length_reverse

@[simp] theorem length_shorten (side : Side) (refs : List InstructionRef) :
    (side.shorten refs).length = refs.length - 1 := by
  cases side with
  | front => exact List.length_tail
  | back => exact List.length_dropLast

/-- An element that is taken at an end is the first that is seen from there and the last that is
seen from the other end. -/
theorem seen_shorten (side taken : Side) (refs : List InstructionRef) :
    side.seen (taken.shorten refs) =
      if taken = side then (side.seen refs).tail else (side.seen refs).dropLast := by
  cases side <;> cases taken <;> simp [seen, shorten]

end Side

/-- Take the next instruction from an end. -/
def step (program : Program) : Side → Walk → Except Fault (Option InstructionRef × Walk)
  | .front => next program
  | .back => nextBack program

/-- What a walk answers to calls at its ends. -/
def run (program : Program) : List Side → Walk → Except Fault (List (Option InstructionRef))
  | [], _ => .ok []
  | side :: sides, walk => do
    let (answer, rest) ← step program side walk
    return answer :: (← run program sides rest)

/-- The instructions that calls at one end have given, in the order of the calls. -/
def taken (side : Side) (sides : List Side) (answers : List (Option InstructionRef)) :
    List InstructionRef :=
  (sides.zip answers).filterMap fun call => if call.1 = side then call.2 else none

/-- The walk that has a stretch of a chain before it. -/
def through (stretch : List InstructionRef) : Walk := ⟨stretch.head?, stretch.getLast?⟩

/-- A call at the front gives the instruction there, and the walk is over if it was the last. -/
theorem next_of_some {program : Program} {walk : Walk} {here : InstructionRef} {entry : Instruction}
    (hfront : walk.front = some here) (hentry : program.instruction here = .ok entry) :
    next program walk = .ok (some here,
      if walk.back = some here then ⟨none, none⟩ else { walk with front := entry.next }) := by
  rw [next, hfront]
  dsimp only
  rw [hentry]
  by_cases hmet : walk.back = some here
  · rw [if_pos hmet]
    simp [hmet, bind, Except.bind, pure, Except.pure]
  · rw [if_neg hmet]
    simp [hmet, bind, Except.bind, pure, Except.pure]

/-- A call at the back gives the instruction there, and the walk is over if it was the last. -/
theorem nextBack_of_some {program : Program} {walk : Walk} {here : InstructionRef}
    {entry : Instruction} (hback : walk.back = some here)
    (hentry : program.instruction here = .ok entry) :
    nextBack program walk = .ok (some here,
      if walk.front = some here then ⟨none, none⟩ else { walk with back := entry.previous }) := by
  rw [nextBack, hback]
  dsimp only
  rw [hentry]
  by_cases hmet : walk.front = some here
  · rw [if_pos hmet]
    simp [hmet, bind, Except.bind, pure, Except.pure]
  · rw [if_neg hmet]
    simp [hmet, bind, Except.bind, pure, Except.pure]

/-! ## Lists that are served from both ends -/

/-- What a list answers that loses an element with each call. -/
def serve : List Side → List InstructionRef → List (Option InstructionRef)
  | [], _ => []
  | side :: sides, refs => (side.seen refs).head? :: serve sides (side.shorten refs)

@[simp] theorem length_serve (sides : List Side) (refs : List InstructionRef) :
    (serve sides refs).length = sides.length := by
  induction sides generalizing refs with
  | nil => rfl
  | cons side sides ih => rw [serve, List.length_cons, ih, List.length_cons]

/-- As long as a list is not empty, a call gives the element behind those that have been taken at
its end. -/
theorem getElem?_serve {sides : List Side} {refs : List InstructionRef} {call : Nat} {side : Side}
    (h : sides[call]? = some side) : (serve sides refs)[call]? = some
      (if call < refs.length then (side.seen refs)[(sides.take call).count side]? else none) := by
  induction sides generalizing refs call with
  | nil => exact nomatch h
  | cons first sides ih =>
    cases call with
    | zero =>
      obtain rfl : first = side := Option.some.inj h
      rw [serve, List.getElem?_cons_zero, List.head?_eq_getElem?, List.take_zero, List.count_nil]
      cases refs with
      | nil => cases first <;> rfl
      | cons ref refs => rw [if_pos (by simp)]
    | succ call =>
      rw [serve, List.getElem?_cons_succ, ih h, Side.length_shorten, List.take_succ_cons,
        List.count_cons, Side.seen_shorten]
      congr 1
      by_cases hlt : call + 1 < refs.length
      · have htaken := List.count_le_length (a := side) (l := sides.take call)
        rw [List.length_take] at htaken
        rw [if_pos (by omega), if_pos hlt]
        by_cases hfirst : first = side
        · rw [if_pos hfirst, if_pos (by simpa using hfirst), List.getElem?_tail]
        · rw [if_neg hfirst, if_neg (by simpa using hfirst), List.getElem?_dropLast,
            Side.length_seen, if_pos (by omega), Nat.add_zero]
      · rw [if_neg (by omega), if_neg hlt]

/-- The calls that are served are the first ones, as many as there are elements. -/
theorem isSome_of_getElem?_serve {sides : List Side} {refs : List InstructionRef} {call : Nat}
    {answer : Option InstructionRef} (h : (serve sides refs)[call]? = some answer) :
    answer.isSome ↔ call < refs.length := by
  have hlt := (List.getElem?_eq_some_iff.1 h).1
  rw [length_serve] at hlt
  obtain rfl := Option.some.inj (h.symm.trans (getElem?_serve (List.getElem?_eq_getElem hlt)))
  by_cases hcall : call < refs.length
  · have htaken := List.count_le_length (a := sides[call]) (l := sides.take call)
    rw [List.length_take] at htaken
    rw [if_pos hcall, List.getElem?_eq_getElem (by rw [Side.length_seen]; omega)]
    exact iff_of_true rfl hcall
  · rw [if_neg hcall]
    exact iff_of_false nofun hcall

/-- The elements that are taken at both ends and what is left between them make up the list. -/
theorem exists_middle (sides : List Side) (refs : List InstructionRef) : ∃ middle,
    taken .front sides (serve sides refs) ++ middle ++
        (taken .back sides (serve sides refs)).reverse = refs ∧
      middle.length = refs.length - sides.length := by
  induction sides generalizing refs with
  | nil => exact ⟨refs, by simp [taken, serve], rfl⟩
  | cons side sides ih =>
    obtain ⟨middle, hparts, hlength⟩ := ih (side.shorten refs)
    refine ⟨middle, ?_, ?_⟩
    · generalize hanswers : serve sides (side.shorten refs) = answers at hparts
      -- the first call adds its answer to the end it takes from and to no other
      have htaken (end' : Side) : taken end' (side :: sides) (serve (side :: sides) refs) =
          (if side = end' then (side.seen refs).head?.toList else []) ++
            taken end' sides answers := by
        rw [taken, serve, hanswers, List.zip_cons_cons, List.filterMap_cons]
        split_ifs <;> cases (side.seen refs).head? <;> rfl
      rw [htaken, htaken]
      cases side with
      | front =>
        cases refs with
        | nil => simpa [Side.seen, Side.shorten] using hparts
        | cons ref refs => simpa [Side.seen, Side.shorten] using hparts
      | back =>
        rcases List.eq_nil_or_concat' refs with rfl | ⟨refs, ref, rfl⟩
        · simpa [Side.seen, Side.shorten] using hparts
        · have hlast : (Side.back.seen (refs ++ [ref])).head?.toList = [ref] := by simp [Side.seen]
          have hshorter : Side.back.shorten (refs ++ [ref]) = refs := List.dropLast_concat
          rw [hshorter] at hparts
          rw [if_neg (by decide), if_pos rfl, hlast, List.nil_append,
            List.reverse_append, ← List.append_assoc, hparts]
          rfl
    · rw [hlength, Side.length_shorten, List.length_cons]
      omega

end Walk

namespace Program

/-! ## Walks through a stretch of a chain -/

namespace Chained

variable {program : Program} {label : LabelRef} {before stretch behind : List InstructionRef}
  {ref : InstructionRef}

/-- An instruction of a chain is linked to the last one in front of it and the first one behind it,
and it is none of these. -/
theorem entry_between (h : program.Chained label (before ++ ref :: behind)) :
    (∃ entry, program.instruction ref = .ok entry ∧ entry.previous = before.getLast? ∧
      entry.next = behind.head?) ∧ ref ∉ before ∧ ref ∉ behind := by
  have hplace : (before ++ ref :: behind)[before.length]? = some ref := by
    rw [List.getElem?_append_right (Nat.le_refl _), Nat.sub_self, List.getElem?_cons_zero]
  obtain ⟨entry, hentry, -, hprevious, hnext⟩ := h.links before.length ref hplace
  refine ⟨⟨entry, found_eq_ok.2 hentry, hprevious.trans ?_, hnext.trans ?_⟩, ?_⟩
  · rcases List.eq_nil_or_concat' before with rfl | ⟨before, last, rfl⟩
    · rfl
    · simp [elementBefore]
  · rw [List.getElem?_append_right (Nat.le_succ _), Nat.succ_sub (Nat.le_refl _), Nat.sub_self,
      List.getElem?_cons_succ, List.head?_eq_getElem?]
  · have hnodup := h.nodup
    rw [List.nodup_append] at hnodup
    obtain ⟨-, hbehind, hapart⟩ := hnodup
    exact ⟨fun hmem => hapart ref hmem ref (.head _) rfl, (List.nodup_cons.1 hbehind).1⟩

/-- **A call at an end of a walk** through a stretch of a chain gives the element there, and the
walk goes on through what is left. -/
theorem step_through (h : program.Chained label (before ++ stretch ++ behind)) (side : Walk.Side) :
    Walk.step program side (.through stretch) =
      .ok ((side.seen stretch).head?, .through (side.shorten stretch)) := by
  cases side with
  | front =>
    cases stretch with
    | nil => rfl
    | cons ref rest =>
      rw [List.append_assoc, List.cons_append] at h
      obtain ⟨⟨entry, hentry, -, hnext⟩, -, hfresh⟩ := h.entry_between
      rw [Walk.step, Walk.next_of_some rfl hentry]
      cases rest with
      | nil =>
        have hmet : (Walk.through [ref]).back = some ref := rfl
        rw [if_pos hmet]
        rfl
      | cons second rest =>
        -- the chain has no instruction twice, so the two ends meet only at the last one
        have hapart : (Walk.through (ref :: second :: rest)).back ≠ some ref :=
          fun hlast => hfresh (List.mem_append_left _ (List.mem_of_getLast? hlast))
        rw [if_neg hapart, hnext]
        rfl
  | back =>
    rcases List.eq_nil_or_concat' stretch with rfl | ⟨rest, ref, rfl⟩
    · rfl
    · rw [← List.append_assoc, List.append_assoc _ [ref], List.singleton_append] at h
      obtain ⟨⟨entry, hentry, hprevious, -⟩, hfresh, -⟩ := h.entry_between
      have hback : (Walk.through (rest ++ [ref])).back = some ref := List.getLast?_concat
      have hlast : (Walk.Side.back.seen (rest ++ [ref])).head? = some ref := by
        rw [Walk.Side.seen, List.reverse_append, List.reverse_singleton]
        rfl
      have hshorter : Walk.Side.back.shorten (rest ++ [ref]) = rest := List.dropLast_concat
      rw [Walk.step, Walk.nextBack_of_some hback hentry, hlast, hshorter]
      cases rest with
      | nil =>
        have hmet : (Walk.through [ref]).front = some ref := rfl
        rw [List.nil_append, if_pos hmet]
        rfl
      | cons first rest =>
        have hapart : (Walk.through (first :: rest ++ [ref])).front ≠ some ref :=
          fun hfirst => hfresh (List.mem_append_right _ (Option.some.inj hfirst ▸ .head _))
        rw [if_neg hapart, hprevious, List.getLast?_append_of_ne_nil _ (List.cons_ne_nil _ _)]
        rfl

/-- What is left of a stretch is a stretch of the chain. -/
theorem exists_shorten (h : program.Chained label (before ++ stretch ++ behind))
    (side : Walk.Side) : ∃ before' behind',
      program.Chained label (before' ++ side.shorten stretch ++ behind') := by
  cases side with
  | front =>
    cases stretch with
    | nil => exact ⟨before, behind, h⟩
    | cons ref rest =>
      refine ⟨before ++ [ref], behind, ?_⟩
      rwa [List.append_assoc before, List.singleton_append]
  | back =>
    rcases List.eq_nil_or_concat' stretch with rfl | ⟨rest, ref, rfl⟩
    · exact ⟨before, behind, h⟩
    · have hshorter : Walk.Side.back.shorten (rest ++ [ref]) = rest := List.dropLast_concat
      refine ⟨before, ref :: behind, ?_⟩
      rw [hshorter]
      rwa [← List.append_assoc, List.append_assoc _ [ref], List.singleton_append] at h

/-- A walk through a stretch of a chain serves it from both ends. -/
theorem run_through (h : program.Chained label (before ++ stretch ++ behind))
    (sides : List Walk.Side) :
    Walk.run program sides (.through stretch) = .ok (Walk.serve sides stretch) := by
  -- what a call leaves of a stretch is a stretch of the same chain
  induction sides generalizing before stretch behind with
  | nil => rfl
  | cons side sides ih =>
    obtain ⟨before', behind', hrest⟩ := h.exists_shorten side
    rw [Walk.run, h.step_through side]
    simp only [bind, Except.bind, pure, Except.pure, ih hrest, Walk.serve]

/-- Collecting from one end gives what is seen from there. -/
theorem collect_through (h : program.Chained label (before ++ stretch ++ behind))
    (side : Walk.Side) {count : Nat} (hcount : stretch.length ≤ count) :
    Walk.collect (Walk.step program side) count (.through stretch) = .ok (side.seen stretch) := by
  induction count generalizing before stretch behind with
  | zero =>
    obtain rfl := List.length_eq_zero_iff.1 (Nat.le_zero.1 hcount)
    cases side <;> rfl
  | succ count ih =>
    obtain ⟨before', behind', hrest⟩ := h.exists_shorten side
    rw [Walk.collect, h.step_through side]
    cases hseen : side.seen stretch with
    | nil => rfl
    | cons ref rest =>
      have hshorter : side.seen (side.shorten stretch) = rest := by
        rw [Walk.Side.seen_shorten, if_pos rfl, hseen, List.tail_cons]
      have hcollect := ih hrest (by rw [Walk.Side.length_shorten]; omega)
      rw [hshorter] at hcollect
      simp only [bind, Except.bind, pure, Except.pure, List.head?_cons, hcollect]

/-- The walk that starts at a label goes through its whole chain. -/
theorem start_eq {refs : List InstructionRef} (h : program.Chained label refs) {entry : Label}
    (hentry : program.labels.get? label = some entry) : Walk.start entry = .through refs := by
  obtain ⟨found, hfound, hhead, htail⟩ := h.ends
  obtain rfl : entry = found := Option.some.inj (hentry.symm.trans hfound)
  rw [Walk.start, hhead, htail, Walk.through]

/-- Walking backwards gives the chain from its last instruction to its first. -/
theorem chainReversed_eq {refs : List InstructionRef} (h : program.Chained label refs) :
    program.chainReversed label = .ok refs.reverse := by
  obtain ⟨entry, hentry, -⟩ := h.ends
  have hlabel : program.label label = .ok entry := found_eq_ok.2 hentry
  have hwhole : program.Chained label ([] ++ refs ++ []) := by simpa using h
  rw [chainReversed, hlabel]
  simp only [bind, Except.bind, h.start_eq hentry]
  exact hwhole.collect_through .back h.length_le

end Chained

/-- **A walk through a chain gives each instruction once, whichever ends are asked.** As long as
instructions are left, a call gives the one behind those that its end has given: at the front they
come in the order of the chain, at the back in the reverse order. As many calls are served as the
chain has instructions, and no later one is. Walking from one end alone gives the chain and its
reverse. -/
theorem Reachable.walks_through {program : Program} (h : program.Reachable) {label : LabelRef}
    {entry : Label} (hentry : program.labels.get? label = some entry) :
    ∃ refs, program.Chained label refs ∧ program.chain label = .ok refs ∧
      program.chainReversed label = .ok refs.reverse ∧
      ∀ sides : List Walk.Side, ∃ answers middle,
        Walk.run program sides (.start entry) = .ok answers ∧ answers.length = sides.length ∧
        (∀ call side, sides[call]? = some side → answers[call]? = some
          (if call < refs.length then (side.seen refs)[(sides.take call).count side]? else none)) ∧
        (∀ call answer, answers[call]? = some answer → (answer.isSome ↔ call < refs.length)) ∧
        Walk.taken .front sides answers ++ middle ++ (Walk.taken .back sides answers).reverse =
          refs ∧
        middle.length = refs.length - sides.length := by
  obtain ⟨layout, hbuilt⟩ := h.requested.exists_built
  obtain ⟨chains, hlinks⟩ := hbuilt.links
  have hchained := hlinks.chained label entry hentry
  have hwhole : program.Chained label ([] ++ chains label ++ []) := by simpa using hchained
  refine ⟨chains label, hchained, hchained.chain_eq, hchained.chainReversed_eq, fun sides => ?_⟩
  obtain ⟨middle, hparts, hlength⟩ := Walk.exists_middle sides (chains label)
  have hrun := hwhole.run_through sides
  rw [← hchained.start_eq hentry] at hrun
  refine ⟨_, middle, hrun, Walk.length_serve sides _, fun call side hside =>
    Walk.getElem?_serve hside, fun call answer => Walk.isSome_of_getElem?_serve, hparts, hlength⟩

/-- A walk through three instructions that is asked at the front, at the back and at the front
again meets its end in the middle; two more calls give nothing. -/
theorem walks_through_three : ∃ program refs entry,
    Request.runAll [.addInstruction (.jump "a"), .addInstruction (.jump "b"),
      .addInstruction (.jump "c"), .append ⟨0⟩ "" ⟨0⟩, .append ⟨0⟩ "" ⟨1⟩, .append ⟨0⟩ "" ⟨2⟩]
      Program.initial = .ok ((), program) ∧ program.labels.get? ⟨0⟩ = some entry ∧
      program.Chained ⟨0⟩ refs ∧ refs = [⟨0⟩, ⟨1⟩, ⟨2⟩] ∧
      Walk.run program [.front, .back, .front, .back, .front] (.start entry) =
        .ok [some ⟨0⟩, some ⟨2⟩, some ⟨1⟩, none, none] := by
  have hbuilt : Step.leadsTo (Request.runAll [.addInstruction (.jump "a"),
      .addInstruction (.jump "b"), .addInstruction (.jump "c"), .append ⟨0⟩ "" ⟨0⟩,
      .append ⟨0⟩ "" ⟨1⟩, .append ⟨0⟩ "" ⟨2⟩]) Program.initial (fun program =>
        program.labels.size == 1 &&
          (program.chain ⟨0⟩).toOption == some [⟨0⟩, ⟨1⟩, ⟨2⟩]) = true := by
    decide +kernel
  obtain ⟨⟨⟩, program, hrun, htest⟩ := Step.exists_of_leadsTo hbuilt
  simp only [Bool.and_eq_true, beq_iff_eq] at htest
  obtain ⟨hlabels, hchain⟩ := htest
  obtain ⟨entry, hentry⟩ := Option.isSome_iff_exists.1
    ((Arena.get?_isSome_iff program.labels ⟨0⟩).2 (by simp [hlabels]))
  have hreachable := (Reachable.runAll .initial hrun).1
  obtain ⟨refs, hchained, hrefs, -, hwalks⟩ := hreachable.walks_through hentry
  rw [hrefs] at hchain
  obtain rfl : refs = [⟨0⟩, ⟨1⟩, ⟨2⟩] := Option.some.inj hchain
  obtain ⟨answers, middle, hanswers, hlength, hcalls, -⟩ :=
    hwalks [.front, .back, .front, .back, .front]
  refine ⟨program, _, entry, hrun, hentry, hchained, rfl, hanswers.trans (congrArg Except.ok ?_)⟩
  refine List.ext_getElem? fun call => ?_
  match call with
  | 0 => exact hcalls 0 .front rfl
  | 1 => exact hcalls 1 .back rfl
  | 2 => exact hcalls 2 .front rfl
  | 3 => exact hcalls 3 .back rfl
  | 4 => exact hcalls 4 .front rfl
  | call + 5 => rw [List.getElem?_eq_none (by rw [hlength]; exact Nat.le_add_left 5 call)]; rfl

end Program

end ChainIR
