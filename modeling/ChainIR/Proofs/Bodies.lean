import Mathlib
import ChainIR.Proofs.Symbols

/-! # The bodies of functions

However a program has come about, the bodies of its functions are in order
(`Program.BodiesAgree`): the labels of a function are its own, each under a name of its own by
which it is found, no label is without instructions, and the entry is the first instruction of the
first label. Instructions may be linked without the function being told, but never in front of a
chain, so whatever further requests do, the entry stays where it is
(`Program.Reachable.bodiesAgree`). -/

namespace ChainIR

namespace Program

/-- The name of a label, if there is one behind the reference. -/
def labelName? (program : Program) (label : LabelRef) : Option String :=
  (program.labels.get? label).map Label.name

/-- The bodies of functions are in order. -/
structure BodiesAgree (program : Program) : Prop where
  /-- No label is twice in a function. -/
  handles : ∀ function entry, program.functions.get? function = some entry → entry.labels.Nodup
  /-- No two labels of a function have one name. -/
  names : ∀ function entry, program.functions.get? function = some entry →
    (entry.labels.map program.labelName?).Nodup
  /-- The labels of a function are those that belong to it. -/
  owned : ∀ function entry, program.functions.get? function = some entry →
    ∀ label, label ∈ entry.labels ↔
      ∃ found, program.labels.get? label = some found ∧ found.function = function
  /-- No label is in two functions. -/
  apart : ∀ left right entry entry' label, program.functions.get? left = some entry →
    program.functions.get? right = some entry' → label ∈ entry.labels → label ∈ entry'.labels →
    left = right
  /-- Every label belongs to a function. -/
  owners : ∀ label found, program.labels.get? label = some found →
    ∃ entry, program.functions.get? found.function = some entry
  /-- A label of a function is found exactly by its name. -/
  found : ∀ function entry, program.functions.get? function = some entry →
    ∀ name, ∃ answer, program.labelNamed? function name = .ok answer ∧
      ∀ label, answer = some label ↔
        label ∈ entry.labels ∧ program.labelName? label = some name
  /-- No label is without instructions. -/
  filled : ∀ label found, program.labels.get? label = some found →
    ∃ first rest, program.chain label = .ok (first :: rest)
  /-- A function is defined exactly if it has a label. -/
  defined : ∀ function entry, program.functions.get? function = some entry →
    (entry.entry.isSome ↔ entry.labels ≠ [])
  /-- The entry is the first instruction of the first label. -/
  entry : ∀ function entry first, program.functions.get? function = some entry →
    entry.entry = some first → ∃ label labels rest, entry.labels = label :: labels ∧
      program.chain label = .ok (first :: rest)
  /-- The entry is the first instruction that is written, behind the header and the line of the
  first label. -/
  written : ∀ function entry first lines, program.functions.get? function = some entry →
    entry.entry = some first → program.functionLines function = .ok lines →
    ∃ header name text rest, entry.labels.head?.bind program.labelName? = some name ∧
      program.instructionText first = .ok text ∧
      lines = header :: (labelLines true name ++ ("\t" ++ text) :: rest)

/-! ## Labels -/

/-- The labels of a function have the names of its blocks. -/
theorem RoutineIs.map_labelName? {program : Program} {ref : FunctionRef} {entry : Function}
    {routine : Routine InstructionRef} (h : program.RoutineIs ref entry routine) :
    entry.labels.map program.labelName? = routine.labels.map some := by
  rw [Routine.labels, List.map_map, ← List.forall₂_eq_eq_eq, List.forall₂_map_left_iff,
    List.forall₂_map_right_iff]
  refine h.labels.imp fun label block hlabel => ?_
  obtain ⟨found, hfound, hname, -⟩ := hlabel.entry
  rw [labelName?, hfound, Option.map_some, hname]
  rfl

namespace Laid

variable {program : Program} {layout : Outline InstructionRef} (h : program.Laid layout)
  {function : FunctionRef} {entry : Function}
  (hentry : program.functions.get? function = some entry)

include h hentry

/-- No two labels of a function have one name. -/
theorem nodup_labelName? : (entry.labels.map program.labelName?).Nodup := by
  obtain ⟨routine, hroutine, his⟩ := h.functions function entry hentry
  rw [his.map_labelName?]
  exact (h.labels routine (List.mem_of_getElem? hroutine)).map (Option.some_injective _)

/-- The labels of a function belong to it. -/
theorem function_of_mem_labels {label : LabelRef} (hmem : label ∈ entry.labels) :
    ∃ found, program.labels.get? label = some found ∧ found.function = function := by
  obtain ⟨routine, -, his⟩ := h.functions function entry hentry
  obtain ⟨position, hposition⟩ := List.getElem?_of_mem hmem
  have hlt := (List.getElem?_eq_some_iff.1 hposition).1
  have hlength := his.labels.length_eq
  have hzip : (label, routine.blocks[position]) ∈ entry.labels.zip routine.blocks :=
    List.mem_of_getElem? (List.getElem?_zip_eq_some.2
      ⟨hposition, List.getElem?_eq_getElem (by omega)⟩)
  obtain ⟨found, hfound, -, hfunction⟩ := ((List.forall₂_iff_zip.1 his.labels).2 hzip).entry
  exact ⟨found, hfound, hfunction⟩

/-- A label of a function is found exactly by its name. -/
theorem exists_labelNamed? (name : String) :
    ∃ answer, program.labelNamed? function name = .ok answer ∧
      ∀ label, answer = some label ↔
        label ∈ entry.labels ∧ program.labelName? label = some name := by
  obtain ⟨routine, -, his⟩ := h.functions function entry hentry
  refine ⟨entry.labelNames.find? name, ?_, fun label => ⟨fun hfind => ?_, ?_⟩⟩
  · rw [labelNamed?, show program.function function = .ok entry from found_eq_ok.2 hentry]
    rfl
  · obtain ⟨hmem, block, -, rfl, hlabel⟩ := his.label_of_find? hfind
    obtain ⟨found, hfound, hname, -⟩ := hlabel.entry
    exact ⟨hmem, by rw [labelName?, hfound, Option.map_some, hname]⟩
  · rintro ⟨hmem, hname⟩
    have hlisted : some name ∈ routine.labels.map some := by
      rw [← his.map_labelName?, ← hname]
      exact List.mem_map_of_mem hmem
    obtain ⟨other, hother, ⟨⟩⟩ := List.mem_map.1 hlisted
    obtain ⟨block, hblock, rfl⟩ := List.mem_map.1 hother
    obtain ⟨same, hsame, hfind, hlabel⟩ := his.exists_label hblock
    obtain ⟨found, hfound, hsameName, -⟩ := hlabel.entry
    -- both labels have the name of the block
    obtain rfl : same = label := by
      refine List.inj_on_of_nodup_map (h.nodup_labelName? hentry) hsame hmem ?_
      rw [hname, labelName?, hfound, Option.map_some, hsameName]
    exact hfind

end Laid

/-! ## Lines -/

/-- The first line of instructions is that of the first instruction. -/
theorem blockLines_eq_ok {program : Program} {isFirst : Bool} {label : LabelRef} {found : Label}
    {first : InstructionRef} {rest : List InstructionRef} {lines : List String}
    (hfound : program.labels.get? label = some found)
    (hchain : program.chain label = .ok (first :: rest))
    (h : program.blockLines isFirst label = .ok lines) :
    ∃ text more, program.instructionText first = .ok text ∧
      lines = labelLines isFirst found.name ++ ("\t" ++ text) :: more := by
  rw [blockLines] at h
  obtain ⟨same, hsame, h⟩ := query_bind_eq_ok.1 h
  obtain rfl : found = same := Except.ok.inj ((found_eq_ok.2 hfound).symm.trans hsame)
  obtain ⟨refs, hrefs, h⟩ := query_bind_eq_ok.1 h
  obtain rfl := Except.ok.inj (hchain.symm.trans hrefs)
  obtain ⟨written, hwritten, hlines⟩ := query_bind_eq_ok.1 h
  rw [List.mapM_cons] at hwritten
  obtain ⟨line, hline, hmore⟩ := query_bind_eq_ok.1 hwritten
  obtain ⟨text, htext, hequal⟩ := query_bind_eq_ok.1 hline
  obtain ⟨more, -, hall⟩ := query_bind_eq_ok.1 hmore
  obtain rfl := Except.ok.inj hequal
  obtain rfl := Except.ok.inj hall
  exact ⟨text, more, htext, (Except.ok.inj hlines).symm⟩

/-- Behind the header of a defined function and the line of its first label stands the first
instruction of the label. -/
theorem functionLines_eq_ok {program : Program} {function : FunctionRef} {entry : Function}
    {label : LabelRef} {labels : List LabelRef} {found : Label} {first : InstructionRef}
    {rest : List InstructionRef} {lines : List String}
    (hentry : program.functions.get? function = some entry) (hdefined : entry.entry.isSome)
    (hlabels : entry.labels = label :: labels)
    (hfound : program.labels.get? label = some found)
    (hchain : program.chain label = .ok (first :: rest))
    (h : program.functionLines function = .ok lines) :
    ∃ header text more, program.instructionText first = .ok text ∧
      lines = header :: (labelLines true found.name ++ ("\t" ++ text) :: more) := by
  -- a function with an entry is written with its body
  have hsome : ¬ entry.entry.isNone := by simpa [Option.isSome_iff_ne_none] using hdefined
  rw [functionLines] at h
  obtain ⟨same, hsame, h⟩ := query_bind_eq_ok.1 h
  obtain rfl : entry = same := Except.ok.inj ((found_eq_ok.2 hentry).symm.trans hsame)
  obtain ⟨words, -, hbody⟩ := query_bind_eq_ok.1 h
  dsimp only at hbody
  rw [if_neg hsome, hlabels] at hbody
  obtain ⟨body, hbody, hlines⟩ := query_bind_eq_ok.1 hbody
  obtain ⟨block, hblock, hmore⟩ := query_bind_eq_ok.1 hbody
  obtain ⟨others, -, hbody⟩ := query_bind_eq_ok.1 hmore
  obtain ⟨text, more, htext, rfl⟩ := blockLines_eq_ok hfound hchain hblock
  obtain rfl := Except.ok.inj hbody
  refine ⟨spaced words, text, more ++ others ++ ["enddef"], htext, ?_⟩
  rw [← Except.ok.inj hlines]
  simp

/-! ## Entries -/

/-- Functions that have an entry keep it. -/
def KeepsEntries (program after : Program) : Prop :=
  ∀ function entry first, program.functions.get? function = some entry →
    entry.entry = some first →
    ∃ entry', after.functions.get? function = some entry' ∧ entry'.entry = some first

namespace KeepsEntries

variable {program after further : Program}

/-- Without a step, all entries are kept. -/
@[refl] theorem refl (program : Program) : program.KeepsEntries program :=
  fun _ entry _ hentry hfirst => ⟨entry, hentry, hfirst⟩

/-- What is kept step by step is kept altogether. -/
theorem trans (first : program.KeepsEntries after) (second : after.KeepsEntries further) :
    program.KeepsEntries further := by
  intro function entry instruction hentry hinstruction
  obtain ⟨entry', hentry', hinstruction'⟩ := first function entry instruction hentry hinstruction
  exact second function entry' instruction hentry' hinstruction'

/-- Entries stay if the functions do. -/
theorem of_functions_eq (h : after.functions = program.functions) :
    program.KeepsEntries after :=
  fun _ entry _ hentry hfirst => ⟨entry, h ▸ hentry, hfirst⟩

/-- Entries stay if a function is changed, but not an entry that it has. -/
theorem modify (function : FunctionRef) {change : Function → Function}
    (hchange : ∀ entry first, entry.entry = some first → (change entry).entry = some first) :
    program.KeepsEntries
      { program with functions := program.functions.modify function change } := by
  intro other entry first hentry hfirst
  obtain ⟨later, hlater, rfl | ⟨-, rfl⟩⟩ := Arena.get?_modify_of_some hentry function change
  · exact ⟨later, hlater, hfirst⟩
  · exact ⟨change entry, hlater, hchange entry first hfirst⟩

/-- Appending sets the entry of a function only if there is none. -/
theorem append {chains : LabelRef → List InstructionRef} (h : program.Links chains)
    {function : FunctionRef} {name : String} {ref : InstructionRef}
    (hrun : Edit.append function name ref program = .ok ((), after)) :
    program.KeepsEntries after := by
  obtain ⟨label, labelled, pushed, hlabel, -, hrelinks, -, rfl⟩ := Edit.append_parts h hrun
  -- neither the label nor the linking touches an entry; behind them one is set if it is missing
  have hlabelled : program.KeepsEntries labelled := by
    obtain ⟨entry, -, ⟨-, rfl⟩ | ⟨-, rfl⟩⟩ := Edit.labelNamed_cases hlabel
    · exact .refl program
    · exact (of_functions_eq rfl).trans (.modify function fun _ _ hfirst => hfirst)
  have hpushed : labelled.KeepsEntries pushed := of_functions_eq (by rw [hrelinks.rest])
  refine (hlabelled.trans hpushed).trans (.modify function fun entry first hfirst => ?_)
  rw [hfirst, Option.some_or]

end KeepsEntries

/-- A revision leaves functions their entries. -/
theorem Revision.keepsEntries {program after : Program} (h : program.Revision after) :
    program.KeepsEntries after := by
  cases h with
  | globalValue hentry hrun =>
    obtain ⟨entry, -, rfl | ⟨-, rfl⟩⟩ := Edit.globalValue_cases hrun
    · exact .refl program
    · exact .of_functions_eq rfl
  | declare hsignature hnew hrun =>
    obtain ⟨-, rfl⟩ := Prod.mk.inj (Except.ok.inj
      ((Edit.declareFunction_of_none hsignature hnew).symm.trans hrun))
    exact fun function entry first hentry hfirst =>
      ⟨entry, Arena.get?_alloc_of_some hentry _, hfirst⟩
  | setParams hentry hrun =>
    obtain ⟨found, -, rfl⟩ := Edit.exists_of_updateFunction hrun
    exact .modify _ fun _ _ hfirst => hfirst
  | define htype hnew hrun =>
    obtain ⟨-, rfl⟩ := Prod.mk.inj (Except.ok.inj
      ((Edit.defineGlobal_of_none _ hnew).symm.trans hrun))
    exact .of_functions_eq rfl

/-- Whatever change is made of a program, functions keep their entries. -/
theorem Change.keepsEntries {program after : Program} {chains : LabelRef → List InstructionRef}
    (h : program.Links chains) (hchange : program.Change after) : program.KeepsEntries after := by
  cases hchange with
  | revision hrevision => exact hrevision.keepsEntries
  | append hrun => exact .append h hrun
  | pushBack hrun =>
    obtain ⟨entry, ends, hentry, hunlinked, hends⟩ := Edit.free_of_pushBack hrun
    obtain ⟨-, hrelinks⟩ := (Edit.pushBack_links h hends hentry hunlinked).of_eq_ok hrun
    exact .of_functions_eq (by rw [hrelinks.rest])
  | insertAfter hrun =>
    obtain ⟨place, label, entry, hplace, hlabel, hentry, hunlinked⟩ := Edit.free_of_insertAfter hrun
    obtain ⟨position, -, hyields⟩ := Edit.insertAfter_links h hplace hlabel hentry hunlinked
    obtain ⟨-, hrelinks⟩ := hyields.of_eq_ok hrun
    exact .of_functions_eq (by rw [hrelinks.rest])

/-- A request leaves functions the entries that they have. -/
theorem Reachable.keepsEntries {program after : Program} (h : program.Reachable)
    {request : Request} (hrun : request.run program = .ok ((), after)) :
    program.KeepsEntries after := by
  obtain ⟨layout, hbuilt⟩ := h.requested.exists_built
  -- growing leaves the functions alone, so only the last change matters
  obtain ⟨middle, hdevelops, hlast⟩ := Request.exists_change hbuilt.interned hrun
  have hmiddle : program.KeepsEntries middle := .of_functions_eq hdevelops.functions
  rcases hlast with rfl | hchange
  · exact hmiddle
  · obtain ⟨chains, hlinks⟩ := (hbuilt.develops hdevelops).links
    exact hmiddle.trans (hchange.keepsEntries hlinks)

/-- Requests lead from programs that can come about to such programs, and leave functions the
entries that they have. -/
theorem Reachable.runAll {program after : Program} (h : program.Reachable)
    {requests : List Request} (hrun : Request.runAll requests program = .ok ((), after)) :
    after.Reachable ∧ program.KeepsEntries after := by
  induction requests generalizing program with
  | nil =>
    obtain rfl : program = after := by simpa [Request.runAll] using hrun
    exact ⟨h, .refl program⟩
  | cons request requests ih =>
    rw [Request.runAll, List.forM_cons] at hrun
    obtain ⟨⟨⟩, middle, hfirst, hrest⟩ := Step.bind_eq_ok.1 hrun
    obtain ⟨hafter, hkeeps⟩ := ih (.request h request hfirst) hrest
    exact ⟨hafter, (h.keepsEntries hfirst).trans hkeeps⟩

/-! ## Bodies -/

namespace Built

variable {program : Program} {layout : Outline InstructionRef} (h : program.Built layout)

include h

/-- A label belongs to a function that has it. -/
theorem exists_mem_labels {label : LabelRef} {found : Label}
    (hfound : program.labels.get? label = some found) :
    ∃ entry, program.functions.get? found.function = some entry ∧ label ∈ entry.labels ∧
      ∃ first rest, program.chain label = .ok (first :: rest) := by
  obtain ⟨entry, hentry, hfind⟩ := h.owned label found hfound
  obtain ⟨routine, hroutine, his⟩ := h.functions found.function entry hentry
  obtain ⟨hmem, block, hblock, -, hlabel⟩ := his.label_of_find? hfind
  obtain ⟨first, rest, hstatements⟩ := List.exists_cons_of_ne_nil
    (h.filled routine (List.mem_of_getElem? hroutine) block hblock)
  refine ⟨entry, hentry, hmem, first, rest, ?_⟩
  rw [hlabel.chain.chain_eq, hstatements]

/-- The entry of a function is the first instruction of its first label. -/
theorem exists_labels_cons {function : FunctionRef} {entry : Function} {first : InstructionRef}
    (hentry : program.functions.get? function = some entry) (hfirst : entry.entry = some first) :
    ∃ label labels found rest, entry.labels = label :: labels ∧
      program.labels.get? label = some found ∧ program.chain label = .ok (first :: rest) := by
  obtain ⟨routine, hroutine, his⟩ := h.functions function entry hentry
  rw [h.entered function entry hentry, hroutine, Option.bind_some, Routine.first?,
    Option.bind_eq_some_iff] at hfirst
  obtain ⟨block, hblock, hstatements⟩ := hfirst
  obtain ⟨blocks, hblocks⟩ := List.head?_eq_some_iff.1 hblock
  obtain ⟨rest, hrest⟩ := List.head?_eq_some_iff.1 hstatements
  have hlabels := his.labels
  rw [hblocks, List.forall₂_cons_right_iff] at hlabels
  obtain ⟨label, labels, hlabel, -, hlabels⟩ := hlabels
  obtain ⟨found, hfound, -⟩ := hlabel.entry
  refine ⟨label, labels, found, rest, hlabels, hfound, ?_⟩
  rw [hlabel.chain.chain_eq, hrest]

/-- The bodies of functions of a program that requests have built are in order. -/
theorem bodies : program.BodiesAgree where
  handles function entry hentry := (h.nodup_labelName? hentry).of_map
  names function entry hentry := h.nodup_labelName? hentry
  owned function entry hentry label := by
    refine ⟨h.function_of_mem_labels hentry, ?_⟩
    rintro ⟨found, hfound, rfl⟩
    obtain ⟨owner, howner, hmem, -⟩ := h.exists_mem_labels hfound
    obtain rfl := Option.some.inj (hentry.symm.trans howner)
    exact hmem
  apart left right entry entry' label hentry hentry' hleft hright := by
    obtain ⟨found, hfound, rfl⟩ := h.function_of_mem_labels hentry hleft
    obtain ⟨found', hfound', rfl⟩ := h.function_of_mem_labels hentry' hright
    obtain rfl := Option.some.inj (hfound.symm.trans hfound')
    rfl
  owners label found hfound := by
    obtain ⟨entry, hentry, -⟩ := h.exists_mem_labels hfound
    exact ⟨entry, hentry⟩
  found function entry hentry := h.exists_labelNamed? hentry
  filled label found hfound := by
    obtain ⟨entry, -, -, hchain⟩ := h.exists_mem_labels hfound
    exact hchain
  defined function entry hentry := h.isSome_entry hentry
  entry function entry first hentry hfirst := by
    obtain ⟨label, labels, -, rest, hlabels, -, hchain⟩ := h.exists_labels_cons hentry hfirst
    exact ⟨label, labels, rest, hlabels, hchain⟩
  written function entry first lines hentry hfirst hlines := by
    obtain ⟨label, labels, found, rest, hlabels, hfound, hchain⟩ :=
      h.exists_labels_cons hentry hfirst
    obtain ⟨header, text, more, htext, hequal⟩ := functionLines_eq_ok hentry
      (Option.isSome_iff_exists.2 ⟨first, hfirst⟩) hlabels hfound hchain hlines
    refine ⟨header, found.name, text, more, ?_, htext, hequal⟩
    rw [hlabels, List.head?_cons, Option.bind_some, labelName?, hfound, Option.map_some]

end Built

/-- **The bodies of functions are in order**, however a program has come about. Whatever requests
then make of it, they still are, and a function that has an entry keeps it. -/
theorem Reachable.bodiesAgree {program : Program} (h : program.Reachable) :
    program.BodiesAgree ∧ ∀ requests after, Request.runAll requests program = .ok ((), after) →
      after.BodiesAgree ∧ program.KeepsEntries after := by
  have hbodies : ∀ {other : Program}, other.Reachable → other.BodiesAgree := by
    intro other hreachable
    obtain ⟨layout, hbuilt⟩ := hreachable.requested.exists_built
    exact hbuilt.bodies
  refine ⟨hbodies h, fun requests after hrun => ?_⟩
  obtain ⟨hafter, hkeeps⟩ := h.runAll hrun
  exact ⟨hbodies hafter, hkeeps⟩

/-- Instructions that are linked behind the entry without the function being told leave it the
entry. -/
theorem bodiesAgree_linked : ∃ program after entry,
    Request.runAll [.addInstruction (.jump "a"), .append ⟨0⟩ "a" ⟨0⟩] initial =
      .ok ((), program) ∧
    Request.runAll [.addInstruction (.ret none), .pushBack ⟨0⟩ ⟨1⟩, .addInstruction (.jump "b"),
      .insertAfter ⟨0⟩ ⟨2⟩] program = .ok ((), after) ∧
    after.BodiesAgree ∧ after.functions.get? ⟨0⟩ = some entry ∧ entry.entry = some ⟨0⟩ ∧
    after.chain ⟨0⟩ = .ok [⟨0⟩, ⟨2⟩, ⟨1⟩] := by
  have hbuilt : Step.leadsTo (Request.runAll [.addInstruction (.jump "a"), .append ⟨0⟩ "a" ⟨0⟩])
      initial (fun program =>
        (program.functions.get? ⟨0⟩).any (fun entry => entry.entry = some ⟨0⟩) &&
        Step.leadsTo (Request.runAll [.addInstruction (.ret none), .pushBack ⟨0⟩ ⟨1⟩,
          .addInstruction (.jump "b"), .insertAfter ⟨0⟩ ⟨2⟩]) program fun after =>
            (after.chain ⟨0⟩).toOption == some [⟨0⟩, ⟨2⟩, ⟨1⟩]) = true := by decide +kernel
  obtain ⟨⟨⟩, program, hrun, htest⟩ := Step.exists_of_leadsTo hbuilt
  rw [Bool.and_eq_true, Option.any_eq_true] at htest
  obtain ⟨⟨entry, hentry, hfirst⟩, hlinked⟩ := htest
  obtain ⟨⟨⟩, after, hrun', hchain⟩ := Step.exists_of_leadsTo hlinked
  obtain ⟨hreachable, -⟩ := Reachable.initial.runAll hrun
  obtain ⟨hbodies, hkeeps⟩ := hreachable.bodiesAgree.2 _ after hrun'
  obtain ⟨entry', hentry', hfirst'⟩ := hkeeps ⟨0⟩ entry ⟨0⟩ hentry (of_decide_eq_true hfirst)
  refine ⟨program, after, entry', hrun, hrun', hbodies, hentry', hfirst', ?_⟩
  cases hresult : after.chain ⟨0⟩ with
  | error fault => simp [hresult, Except.toOption] at hchain
  | ok refs => simpa [hresult, Except.toOption] using hchain

end Program

end ChainIR
