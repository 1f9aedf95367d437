import Mathlib
import ChainIR.Proofs.Reading.Beside

/-! # Globals may stand first

A line that defines a global touches nothing but the globals, and the lines that it is moved in
front of touch no globals. So the definitions of globals may be moved to the front of a source or to
any place on the way there (`Source.Hoisted`), as long as they stay in order: the source is accepted
as before, and gives the same program (`Reading.accepts_hoisted`). This is how programs are
written. -/

namespace ChainIR

/-! ## Moving globals -/

namespace Source

/-- Whether lines define a global, if a function is open in front of them or none is. -/
def definesGlobal (inside : Bool) : Source → Bool
  | [] => false
  | line :: rest =>
    !inside && line.startsWith "global" || definesGlobal (line.opens inside) rest

/-- The definition of a global is moved from one place outside of functions to an earlier one; no
other one stands between the two. -/
inductive Hoist : Source → Source → Prop
  | move (before middle after : Source) {line : SourceLine}
      (outside : before.endsInside = false) (outside' : (before ++ middle).endsInside = false)
      (others : definesGlobal false middle = false) (isGlobal : line.startsWith "global") :
      Hoist (before ++ (middle ++ line :: after)) (before ++ (line :: (middle ++ after)))

/-- Definitions of globals are moved to earlier places and stay in order. -/
def Hoisted : Source → Source → Prop := Relation.ReflTransGen Hoist

/-- The lines that define globals, if a function is open in front of the source or none is. -/
def globalLines (inside : Bool) : Source → Source
  | [] => []
  | line :: rest =>
    if !inside && line.startsWith "global" then line :: globalLines inside rest
    else globalLines (line.opens inside) rest

/-- The lines that do not define globals. -/
def otherLines (inside : Bool) : Source → Source
  | [] => []
  | line :: rest =>
    if !inside && line.startsWith "global" then otherLines inside rest
    else line :: otherLines (line.opens inside) rest

/-- The source with the definitions of globals in front of all else. -/
def globalsFirst (source : Source) : Source := globalLines false source ++ otherLines false source

/-- The definition of a global opens no function. -/
theorem opens_of_global {line : SourceLine} (h : line.startsWith "global") :
    line.opens false = false := by
  obtain ⟨tokens, htokens, hword⟩ := (Option.any_eq_true _ _).1 h
  rw [SourceLine.opens, if_neg Bool.false_ne_true, SourceLine.startsWith, htokens, Option.any_some]
  exact Token.startWith_of_ne hword (by decide)

/-- Definitions of globals open no function. -/
theorem endsInside_of_globals {globals : Source}
    (h : ∀ line ∈ globals, line.startsWith "global") : globals.endsInside = false := by
  rw [endsInside]
  induction globals with
  | nil => rfl
  | cons line rest ih =>
    rw [List.foldl_cons, opens_of_global (h line (.head _))]
    exact ih fun line hmem => h line (.tail _ hmem)

/-- Whether the last line defines a global rests on where the others end. -/
theorem definesGlobal_concat (inside : Bool) (source : Source) (line : SourceLine) :
    definesGlobal inside (source ++ [line]) = (definesGlobal inside source ||
      !source.foldl SourceLine.opens inside && line.startsWith "global") := by
  induction source generalizing inside with
  | nil => simp [definesGlobal]
  | cons first rest ih => simp [definesGlobal, ih, Bool.or_assoc]

/-- All definitions of globals may be moved to the front. -/
theorem hoisted_globalsFirst (source : Source) : source.Hoisted source.globalsFirst := by
  -- along the source, globals have been collected in front of the other lines
  suffices h : ∀ globals others : Source, (∀ line ∈ globals, line.startsWith "global") →
      definesGlobal false others = false → Hoisted (globals ++ (others ++ source))
        (globals ++ globalLines others.endsInside source ++
          (others ++ otherLines others.endsInside source)) from
    h [] [] (by simp) rfl
  induction source with
  | nil =>
    intro globals others _ _
    simp only [globalLines, otherLines, List.append_nil]
    exact .refl
  | cons line rest ih =>
    intro globals others hglobals hothers
    by_cases hglobal : (!others.endsInside && line.startsWith "global") = true
    · -- the line is moved behind the globals that have been collected
      rw [globalLines, otherLines, if_pos hglobal, if_pos hglobal]
      rw [Bool.and_eq_true, Bool.not_eq_true'] at hglobal
      obtain ⟨houtside, hword⟩ := hglobal
      have hcollected := endsInside_of_globals hglobals
      have hmiddle : (globals ++ others).endsInside = false := by
        rw [endsInside, List.foldl_append, ← endsInside, hcollected]
        exact houtside
      have hrest := ih (globals ++ [line]) others (by simpa [or_imp, forall_and] using
        ⟨hglobals, hword⟩) hothers
      simp only [List.append_assoc, List.singleton_append] at hrest ⊢
      exact .head (.move globals others rest hcollected hmiddle hothers hword) hrest
    · rw [globalLines, otherLines, if_neg hglobal, if_neg hglobal]
      have hnone : definesGlobal false (others ++ [line]) = false := by
        rw [definesGlobal_concat, hothers, Bool.false_or]
        exact Bool.eq_false_of_not_eq_true hglobal
      have hopens : (others ++ [line]).endsInside = line.opens others.endsInside := by
        rw [endsInside, List.foldl_append]
        rfl
      have hrest := ih globals (others ++ [line]) hglobals hnone
      rw [hopens] at hrest
      simpa only [List.append_assoc, List.cons_append, List.nil_append] using hrest

end Source

/-! ## Reading what has been moved -/

namespace Reader

variable {reader next final other : Reader} {line line' : SourceLine} {record : Option LogRecord}

/-- Lines that define no global are accepted beside further globals. -/
theorem readLines_beside {widening : Widening} {source : Source}
    (h : widening.RelatesReaders reader other) (hlines : reader.readLines source = .ok final)
    (hglobal : source.definesGlobal reader.isInside = false) :
    ∃ final', other.readLines source = .ok final' ∧ widening.RelatesReaders final final' := by
  induction source generalizing reader other with
  | nil =>
    obtain rfl := Except.ok.inj hlines
    exact ⟨other, rfl, h⟩
  | cons line rest ih =>
    obtain ⟨next, record, hline, hrest⟩ := readLines_cons_eq_ok.1 hlines
    rw [Source.definesGlobal, Bool.or_eq_false_iff] at hglobal
    obtain ⟨hfirst, hothers⟩ := hglobal
    obtain ⟨next', record', hline', hnext⟩ := readLine_beside h hline rfl fun houtside => by
      simpa [houtside] using hfirst
    rw [← isInside_of_readLine hline] at hothers
    obtain ⟨final', hrest', hfinal⟩ := ih hnext hrest hothers
    exact ⟨final', readLines_cons_eq_ok.2 ⟨next', record', hline', hrest'⟩, hfinal⟩

end Reader

open Reader in
/-- Moving one definition of a global leaves what is read as it is. -/
theorem Source.Hoist.readLines {source source' : Source} (h : source.Hoist source')
    {final : Reader} (hlines : ({} : Reader).readLines source = .ok final) :
    ∃ final', ({} : Reader).readLines source' = .ok final' ∧ final.SamePlace final' := by
  obtain ⟨before, middle, after, houtside, houtside', hothers, hglobal⟩ := h
  obtain ⟨front, hbefore, hrest⟩ := readLines_append_eq_ok.1 hlines
  obtain ⟨back, hmiddle, hrest⟩ := readLines_append_eq_ok.1 hrest
  obtain ⟨next, record, hline, hafter⟩ := readLines_cons_eq_ok.1 hrest
  have hbehind : ({} : Reader).readLines (before ++ middle) = .ok back :=
    readLines_append_eq_ok.2 ⟨front, hbefore, hmiddle⟩
  have hfront : front.isInside = false := (isInside_of_readLines hbefore).trans houtside
  have hback : back.isInside = false := (isInside_of_readLines hbehind).trans houtside'
  have hnone : definesGlobal front.isInside middle = false := hfront ▸ hothers
  -- the lines between the two places leave the globals as they are
  have hsame : back.program.scope = front.program.scope := by
    let widening : Widening := ⟨front.program.scope, front.program.scope, .refl _⟩
    have hrelates : widening.RelatesReaders front front := ⟨rfl, rfl, rfl⟩
    obtain ⟨_, -, hfinal⟩ := readLines_beside hrelates hmiddle hnone
    exact hfinal.scope
  obtain ⟨wide, hwithin, rfl, hagain⟩ :=
    readLine_again (reachable_of_readLines hbehind) hback hline hglobal
  -- so the global is defined in front of them, and they are read beside it
  obtain ⟨record', hline'⟩ :=
    hagain front (reachable_of_readLines hbefore) hsame.symm hfront _ rfl
  let widening : Widening := ⟨front.program.scope, wide, hsame ▸ hwithin⟩
  have hrelates : widening.RelatesReaders front
      ⟨front.line + 1, front.position, front.program.withScope wide⟩ := ⟨rfl, rfl, rfl⟩
  obtain ⟨back', hmiddle', hback'⟩ := readLines_beside hrelates hmiddle hnone
  have hplace : SamePlace ⟨back.line + 1, back.position, back.program.withScope wide⟩ back' :=
    ⟨hback'.position, hback'.program⟩
  have hreachable : (back.program.withScope wide).Reachable :=
    reachable_of_readLine (reachable_of_readLines hbehind) hline
  obtain ⟨final', hafter', hfinal⟩ := readLines_samePlace hreachable hplace hafter
  refine ⟨final', ?_, hfinal⟩
  exact readLines_append_eq_ok.2 ⟨front, hbefore, readLines_cons_eq_ok.2 ⟨_, record', hline',
    readLines_append_eq_ok.2 ⟨back', hmiddle', hafter'⟩⟩⟩

namespace Reading

/-- **Globals may be defined earlier**: if a text is accepted, then so is every text with some of
its globals defined at earlier places and in the same order, with the same program; and so is the
text with all of them in front. -/
theorem accepts_hoisted {text : String} {program : Program}
    (haccepted : (ofText text).result = .ok program) :
    (∀ text', (Source.ofText text).Hoisted (Source.ofText text') →
      (ofText text').result = .ok program) ∧
    (ofSource (Source.ofText text).globalsFirst).result = .ok program :=
  ⟨fun _ hhoisted => result_of_samePlace Source.Hoist.readLines hhoisted haccepted,
    result_of_samePlace Source.Hoist.readLines (Source.hoisted_globalsFirst _) haccepted⟩

/-- The second of two globals is moved in front of a definition that ends between them, which
refers to the first. -/
theorem accepts_hoisted_between : ∃ program : Program,
    (ofText "global $a const num 1\ndef num f\nret $a\nenddef\nglobal $b const num 2\n").result =
      .ok program ∧
    (ofText "global $a const num 1\nglobal $b const num 2\ndef num f\nret $a\nenddef\n").result =
      .ok program ∧
    program.globals.size = 2 ∧ program.values.get? ⟨0⟩ = some (.globalPointer "a" ⟨1⟩) := by
  have hhoist : Source.Hoist
      (Source.ofText "global $a const num 1\ndef num f\nret $a\nenddef\nglobal $b const num 2\n")
      (Source.ofText "global $a const num 1\nglobal $b const num 2\ndef num f\nret $a\nenddef\n") :=
    .move (Source.ofText "global $a const num 1\n") (Source.ofText "def num f\nret $a\nenddef\n") []
      (by decide +kernel) (by decide +kernel) (by decide +kernel) (by decide +kernel)
  have haccepted : accepts
      "global $a const num 1\ndef num f\nret $a\nenddef\nglobal $b const num 2\n" fun program =>
        program.globals.size = 2 ∧ program.values.get? ⟨0⟩ = some (.globalPointer "a" ⟨1⟩) := by
    decide +kernel
  obtain ⟨program, hread, htest⟩ := exists_of_accepts haccepted
  obtain ⟨hmoved, -⟩ := accepts_hoisted hread
  exact ⟨program, hread, hmoved _ (.single hhoist), of_decide_eq_true htest⟩

end Reading

end ChainIR
