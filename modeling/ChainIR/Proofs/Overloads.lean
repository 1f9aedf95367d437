import Mathlib
import ChainIR.Proofs.Growth

/-! # Overload resolution

A call means the first overload of its name that takes exactly its arguments, or else the first
variadic one whose parameters they start with (`Program.SymbolsAgree.resolve?_eq`). Overloads are only
ever added behind the others, and what they take never changes, so whatever a program leads to, the
meaning of a call can change in one way only: from a variadic overload to a later one that takes
exactly its arguments (`Program.Reachable.resolution`). -/

namespace ChainIR

namespace Program

/-! ## What overloads take -/

/-- A function has a name and a signature with a property. -/
def FunctionIs (program : Program) (name : String) (property : Signature → Prop)
    (ref : FunctionRef) : Prop :=
  ∃ entry signature, program.functions.get? ref = some entry ∧ entry.name = name ∧
    program.signature? entry.type = .ok (some signature) ∧ property signature

/-- An overload of a name that takes exactly the arguments: it is not variadic, and the arguments
are its parameters. -/
def TakesExactly (program : Program) (name : String) (arguments : List TypeRef) :
    FunctionRef → Prop :=
  program.FunctionIs name fun signature =>
    signature.variadic = false ∧ signature.params = arguments

/-- An overload of a name that takes the arguments and maybe others: it is variadic, and the
arguments start with its parameters. -/
def TakesVariadically (program : Program) (name : String) (arguments : List TypeRef) :
    FunctionRef → Prop :=
  program.FunctionIs name fun signature =>
    signature.variadic = true ∧ signature.params <+: arguments

/-- Whether a function is known to accept. -/
def accepts (program : Program) (property : Signature → Bool) (ref : FunctionRef) : Bool :=
  match program.functionAccepts property ref with
  | .ok answer => answer
  | .error _ => false

namespace SymbolsAgree

variable {program : Program} (h : program.SymbolsAgree)

include h

/-- The overloads of a name are the functions that have the name. -/
theorem mem_overloadsOf {name : String} {ref : FunctionRef} :
    ref ∈ program.overloadsOf name ↔
      ∃ entry, program.functions.get? ref = some entry ∧ entry.name = name := by
  rw [h.overloads, h.functionRefs, Arena.mem_filter_refs]
  simp only [decide_eq_true_eq]

/-- Whether an overload accepts depends on its signature, which it has. -/
theorem functionAccepts_iff {name : String} {ref : FunctionRef}
    (hmem : ref ∈ program.overloadsOf name) {test : Signature → Bool}
    {property : Signature → Prop} (htest : ∀ signature, test signature ↔ property signature) :
    ∃ answer : Bool, program.functionAccepts test ref = .ok answer ∧
      (answer ↔ program.FunctionIs name property ref) := by
  obtain ⟨entry, hentry, hname⟩ := h.mem_overloadsOf.1 hmem
  obtain ⟨signature, hsignature⟩ := h.signatures ref entry hentry
  refine ⟨test signature, ?_, ?_⟩
  · refine query_bind_eq_ok.2 ⟨entry, found_eq_ok.2 hentry, ?_⟩
    exact query_bind_eq_ok.2 ⟨some signature, hsignature, rfl⟩
  · rw [htest]
    constructor
    · exact fun hproperty => ⟨entry, signature, hentry, hname, hsignature, hproperty⟩
    · rintro ⟨other, found, hother, -, hfound, hproperty⟩
      obtain rfl := Option.some.inj (hentry.symm.trans hother)
      obtain rfl : signature = found :=
        Option.some.inj (Except.ok.inj (hsignature.symm.trans hfound))
      exact hproperty

/-- The search for an overload finds the first one that is as described. -/
theorem firstSuch?_overloadsOf (name : String) {test : Signature → Bool}
    {property : Signature → Prop} (htest : ∀ signature, test signature ↔ property signature) :
    firstSuch? (program.functionAccepts test) (program.overloadsOf name) =
        .ok ((program.overloadsOf name).find? (program.accepts test)) ∧
      ∀ ref ∈ program.overloadsOf name,
        program.accepts test ref ↔ program.FunctionIs name property ref := by
  have hanswers : ∀ ref ∈ program.overloadsOf name,
      program.functionAccepts test ref = .ok (program.accepts test ref) ∧
        (program.accepts test ref ↔ program.FunctionIs name property ref) := by
    intro ref hmem
    obtain ⟨answer, hanswer, hiff⟩ := h.functionAccepts_iff hmem htest
    rw [accepts, hanswer]
    exact ⟨rfl, hiff⟩
  exact ⟨firstSuch?_eq fun ref hmem => (hanswers ref hmem).1, fun ref hmem => (hanswers ref hmem).2⟩

end SymbolsAgree

/-- Taking exactly the arguments is not being variadic and having them as parameters. -/
theorem takesExactly_iff (arguments : List TypeRef) (signature : Signature) :
    signature.takesExactly arguments ↔ signature.variadic = false ∧ signature.params = arguments := by
  simp [Signature.takesExactly]

/-- Taking the arguments variadically is being variadic with parameters that they start with. -/
theorem takesVariadically_iff (arguments : List TypeRef) (signature : Signature) :
    signature.takesVariadically arguments ↔
      signature.variadic = true ∧ signature.params <+: arguments := by
  simp [Signature.takesVariadically, List.isPrefixOf_iff_prefix]

/-- Functions go on to be what they are. -/
theorem Extends.functionIs {program after : Program} (h : program.Extends after) {name : String}
    {property : Signature → Prop} {ref : FunctionRef}
    (his : program.FunctionIs name property ref) : after.FunctionIs name property ref := by
  obtain ⟨entry, signature, hentry, hname, hsignature, hproperty⟩ := his
  obtain ⟨entry', hentry', hname', htype⟩ := h.functions ref entry hentry
  refine ⟨entry', signature, hentry', hname'.trans hname, ?_, hproperty⟩
  rw [htype]
  exact h.signature?_eq hsignature

namespace SymbolsAgree

variable {program : Program} (h : program.SymbolsAgree)

include h

/-- **Overload resolution**: a call means the first overload that takes exactly its arguments, or
else the first variadic one that takes them. -/
theorem resolve?_eq (name : String) (arguments : List TypeRef) :
    program.resolve? name arguments = .ok
      (((program.overloadsOf name).find? (program.accepts (·.takesExactly arguments))).or
        ((program.overloadsOf name).find? (program.accepts (·.takesVariadically arguments)))) := by
  obtain ⟨hexact, -⟩ := h.firstSuch?_overloadsOf name (takesExactly_iff arguments)
  obtain ⟨hvariadic, -⟩ :=
    h.firstSuch?_overloadsOf name (takesVariadically_iff arguments)
  rw [resolve?, hexact]
  cases (program.overloadsOf name).find? (program.accepts (·.takesExactly arguments)) with
  | some ref => rfl
  | none => exact hvariadic

/-! ## The first overload, now and later -/

/-- The first overload with a property is found exactly if there is one. -/
theorem find?_overloadsOf (name : String) {test : Signature → Bool} {property : Signature → Prop}
    (htest : ∀ signature, test signature ↔ property signature) :
    match (program.overloadsOf name).find? (program.accepts test) with
    | some ref => program.FunctionIs name property ref
    | none => ∀ ref, ¬ program.FunctionIs name property ref := by
  obtain ⟨-, hiff⟩ := h.firstSuch?_overloadsOf name htest
  cases hfind : (program.overloadsOf name).find? (program.accepts test) with
  | some ref => exact (hiff ref (List.mem_of_find?_eq_some hfind)).1 (List.find?_some hfind)
  | none =>
    intro ref his
    obtain ⟨entry, -, hentry, hname, -⟩ := id his
    have hmem := h.mem_overloadsOf.2 ⟨entry, hentry, hname⟩
    exact List.find?_eq_none.1 hfind ref hmem ((hiff ref hmem).2 his)

/-- The first overload with a property stays the first when a program is extended, since what is
new comes behind it. -/
theorem find?_later (name : String) {test : Signature → Bool} {property : Signature → Prop}
    (htest : ∀ signature, test signature ↔ property signature) {after : Program}
    (hafter : after.SymbolsAgree) (hgrows : program.OnlyGrows after) {ref : FunctionRef}
    (hfind : (program.overloadsOf name).find? (program.accepts test) = some ref) :
    (after.overloadsOf name).find? (after.accepts test) = some ref := by
  obtain ⟨-, hiff⟩ := h.firstSuch?_overloadsOf name htest
  obtain ⟨-, hiff'⟩ := hafter.firstSuch?_overloadsOf name htest
  obtain ⟨more, hmore⟩ := hgrows.overloads name
  -- an overload that there was accepts as it did: it has the signature that it had
  have hsame : ∀ other ∈ program.overloadsOf name,
      after.accepts test other = program.accepts test other := by
    intro other hmem
    have hmem' : other ∈ after.overloadsOf name := hmore ▸ List.mem_append_left more hmem
    rw [Bool.eq_iff_iff, hiff other hmem, hiff' other hmem']
    constructor
    · rintro ⟨entry', signature', hentry', -, hsignature', hproperty⟩
      obtain ⟨entry, hentry, hname⟩ := h.mem_overloadsOf.1 hmem
      obtain ⟨signature, hsignature⟩ := h.signatures other entry hentry
      obtain ⟨later, hlater, -, htype⟩ := hgrows.toExtends.functions other entry hentry
      obtain rfl := Option.some.inj (hentry'.symm.trans hlater)
      rw [htype, hgrows.toExtends.signature?_eq hsignature] at hsignature'
      obtain rfl : signature = signature' := Option.some.inj (Except.ok.inj hsignature')
      exact ⟨entry, signature, hentry, hname, hsignature, hproperty⟩
    · exact hgrows.toExtends.functionIs
  have hold : (program.overloadsOf name).find? (after.accepts test) = some ref := by
    rw [← hfind]
    exact List.find?_congr hsame
  rw [← hmore, List.find?_append, hold, Option.some_or]

/-- What a call means: an overload that takes exactly its arguments, or a variadic one that takes
them if there is no exact one, or nothing if there is neither. -/
theorem exists_resolve? (name : String) (arguments : List TypeRef) :
    ∃ found, program.resolve? name arguments = .ok found ∧
      (∀ ref, found = some ref → program.TakesExactly name arguments ref ∨
        program.TakesVariadically name arguments ref ∧
          ∀ other, ¬ program.TakesExactly name arguments other) ∧
      (found = none → ∀ ref, ¬ program.TakesExactly name arguments ref ∧
        ¬ program.TakesVariadically name arguments ref) := by
  have hexact := h.find?_overloadsOf name (takesExactly_iff arguments)
  have hvariadic := h.find?_overloadsOf name (takesVariadically_iff arguments)
  refine ⟨_, h.resolve?_eq name arguments, ?_⟩
  -- an exact overload comes first; without one, the search for a variadic one decides
  split at hexact
  · next exact heq =>
    rw [heq, Option.some_or]
    refine ⟨fun ref href => .inl ?_, by simp⟩
    rw [← Option.some.inj href]
    exact hexact
  · next heq =>
    rw [heq, Option.none_or]
    split at hvariadic
    · next variadic heq' =>
      rw [heq']
      refine ⟨fun ref href => .inr ⟨?_, hexact⟩, by simp⟩
      rw [← Option.some.inj href]
      exact hvariadic
    · next heq' =>
      rw [heq']
      exact ⟨by simp, fun _ ref => ⟨hexact ref, hvariadic ref⟩⟩

/-- A call that means a function of a program means it in what becomes of the program as well,
unless no overload took exactly its arguments and now one does. -/
theorem resolve?_later {name : String} {arguments : List TypeRef} {after : Program}
    (hafter : after.SymbolsAgree) (hgrows : program.OnlyGrows after) {ref : FunctionRef}
    (hresolve : program.resolve? name arguments = .ok (some ref)) :
    after.resolve? name arguments = .ok (some ref) ∨
      (∀ other, ¬ program.TakesExactly name arguments other) ∧
        ∃ other, after.resolve? name arguments = .ok (some other) ∧
          after.TakesExactly name arguments other := by
  have hexact := h.find?_overloadsOf name (takesExactly_iff arguments)
  rw [h.resolve?_eq] at hresolve
  rw [hafter.resolve?_eq]
  cases hfind : (program.overloadsOf name).find?
      (program.accepts (·.takesExactly arguments)) with
  | some exact =>
    rw [hfind, Option.some_or] at hresolve
    left
    rw [h.find?_later name (takesExactly_iff arguments) hafter hgrows hfind, Option.some_or,
      hresolve]
  | none =>
    -- there was no exact overload, and only a new one can take the call over
    rw [hfind] at hexact
    rw [hfind, Option.none_or] at hresolve
    have hstays := h.find?_later name (takesVariadically_iff arguments) hafter hgrows
      (Except.ok.inj hresolve)
    have hexact' := hafter.find?_overloadsOf name (takesExactly_iff arguments)
    cases hfind' : (after.overloadsOf name).find?
        (after.accepts (·.takesExactly arguments)) with
    | some other =>
      rw [hfind'] at hexact'
      exact .inr ⟨hexact, other, rfl, hexact'⟩
    | none => exact .inl (by rw [hstays, Option.none_or])

end SymbolsAgree

/-! ## Calls of any program -/

/-- **Calls are resolved to exact overloads first, and stay resolved.** A call means an overload of
its name that takes exactly its arguments, or a variadic one that takes them if there is no exact
one, and it means nothing only if there is neither. Whatever the program leads to, a call that meant
an exact overload still means it, and a call that meant a variadic one means the same or an exact
one, so a call that meant something still does. -/
theorem Reachable.resolution {program : Program} (h : program.Reachable) (name : String)
    (arguments : List TypeRef) :
    (∃ found, program.resolve? name arguments = .ok found ∧
      (∀ ref, found = some ref → program.TakesExactly name arguments ref ∨
        program.TakesVariadically name arguments ref ∧
          ∀ other, ¬ program.TakesExactly name arguments other) ∧
      (found = none → ∀ ref, ¬ program.TakesExactly name arguments ref ∧
        ¬ program.TakesVariadically name arguments ref)) ∧
    ∀ after, program.Leads after → ∀ ref, program.resolve? name arguments = .ok (some ref) →
      (program.TakesExactly name arguments ref →
        after.resolve? name arguments = .ok (some ref)) ∧
      ∃ other, after.resolve? name arguments = .ok (some other) ∧
        (other = ref ∨ after.TakesExactly name arguments other) := by
  obtain ⟨layout, hbuilt⟩ := h.requested.exists_built
  refine ⟨hbuilt.symbols.exists_resolve? name arguments, fun after hleads ref hresolve => ?_⟩
  have hbecomes := hleads.becomes h
  obtain ⟨layout', hbuilt'⟩ := (hbecomes.reachable h).requested.exists_built
  -- what was found stays, or an exact overload takes the place of a variadic one
  have hlater :=
    hbuilt.symbols.resolve?_later hbuilt'.symbols (hbecomes.onlyGrows h) hresolve
  constructor
  · intro hexact
    rcases hlater with hsame | ⟨hnone, -⟩
    · exact hsame
    · exact absurd hexact (hnone ref)
  · rcases hlater with hsame | ⟨-, other, hother, hexact⟩
    · exact ⟨ref, hsame, .inl rfl⟩
    · exact ⟨other, hother, .inr hexact⟩

/-- A call of `printf` with a string and a number means the variadic builtin function until an
overload is declared that takes exactly these, and then that one. -/
theorem resolution_printf : ∃ program,
    Request.runAll [.getType (.ofShape (.function ⟨⟨0⟩, [⟨2⟩, ⟨1⟩], false⟩))] initial =
      .ok ((), program) ∧
    program.resolve? "printf" [⟨2⟩, ⟨1⟩] = .ok (some ⟨11⟩) ∧
    ∃ after, (Request.declare "printf" ⟨11⟩).run program = .ok ((), after) ∧
      after.resolve? "printf" [⟨2⟩, ⟨1⟩] = .ok (some ⟨13⟩) ∧
      (¬ program.TakesExactly "printf" [⟨2⟩, ⟨1⟩] ⟨11⟩) ∧
      after.TakesExactly "printf" [⟨2⟩, ⟨1⟩] ⟨13⟩ := by
  have hbuilt : Step.leadsTo
      (Request.runAll [.getType (.ofShape (.function ⟨⟨0⟩, [⟨2⟩, ⟨1⟩], false⟩))]) initial
      (fun program => (program.resolve? "printf" [⟨2⟩, ⟨1⟩]).toOption == some (some ⟨11⟩) &&
        Step.leadsTo (Request.declare "printf" ⟨11⟩).run program fun after =>
          (after.resolve? "printf" [⟨2⟩, ⟨1⟩]).toOption == some (some ⟨13⟩)) = true := by
    decide +kernel
  have hanswer : ∀ {answer : Except Fault (Option FunctionRef)} {ref : FunctionRef},
      (answer.toOption == some (some ref)) = true → answer = .ok (some ref) := by
    intro answer ref hsame
    cases answer with
    | error fault => simp [Except.toOption] at hsame
    | ok found => simpa [Except.toOption] using hsame
  obtain ⟨⟨⟩, program, hrun, htest⟩ := Step.exists_of_leadsTo hbuilt
  obtain ⟨hvariadic, hmore⟩ := (Bool.and_eq_true _ _).mp htest
  obtain ⟨⟨⟩, after, hdeclare, hexact⟩ := Step.exists_of_leadsTo hmore
  obtain ⟨hreachable, -⟩ := Reachable.initial.runAll hrun
  obtain ⟨hkept, other, hother, hcases⟩ := (hreachable.resolution "printf" [⟨2⟩, ⟨1⟩]).2 after
    (.request .refl _ hdeclare) ⟨11⟩ (hanswer hvariadic)
  obtain rfl : other = ⟨13⟩ :=
    Option.some.inj (Except.ok.inj (hother.symm.trans (hanswer hexact)))
  refine ⟨program, hrun, hanswer hvariadic, after, hdeclare, hother, fun htakes => ?_, ?_⟩
  · exact absurd (hother.symm.trans (hkept htakes)) (by decide)
  · exact hcases.resolve_left (by decide)

end Program

end ChainIR
