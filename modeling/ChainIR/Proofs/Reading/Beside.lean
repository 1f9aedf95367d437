import Mathlib
import ChainIR.Proofs.Reading.GlobalLine
import ChainIR.Proofs.Reading.Inside

/-! # Sources beside further globals

A line that is accepted is accepted as well at another place of a source, if its tokens are the same
up to their numbers, and beside further globals (`Reader.readLine_beside`); a line that defines a
global defines it wherever the globals are the same (`Reader.readLine_again`). So lines are read in
the same way at the same place, whatever their numbers are (`Reader.readLines_samePlace`). -/

namespace ChainIR

/-- The same tokens on two lines are alike. -/
theorem Token.alike_onLine (number other : Nat) (tokens : List Token) :
    List.Forall₂ Token.Alike (tokens.map (Token.onLine number))
      (tokens.map (Token.onLine other)) := by
  rw [List.forall₂_map_left_iff, List.forall₂_map_right_iff]
  exact List.forall₂_same.2 fun _ _ => ⟨rfl, rfl⟩

namespace Reader

variable {reader next final : Reader} {line : SourceLine} {record : Option LogRecord}

/-- The program that reading starts from can come about. -/
theorem reachable_start : ({} : Reader).program.Reachable := by
  rw [program_start]
  exact .initial

/-- An accepted line makes of a program that can come about one that can. -/
theorem reachable_of_readLine (h : reader.program.Reachable)
    (hline : reader.readLine line = .ok (next, record)) : next.program.Reachable := by
  obtain ⟨tokens, -, ⟨-, rfl, -⟩ | ⟨-, position, after, hread, rfl⟩⟩ := readLine_eq_ok.1 hline
  · exact h
  · exact (LineReader.sourceLine_becomes _ h _ _ hread).reachable h

/-- The program behind accepted lines can come about. -/
theorem reachable_of_readLines {source : Source} (h : ({} : Reader).readLines source = .ok final) :
    final.program.Reachable :=
  property_of_readLines (fun h hline => reachable_of_readLine h hline) reachable_start h

end Reader

/-! ## Lines at another place -/

/-- Two readers stand at the same position, the second beside the wider globals. -/
structure Widening.RelatesReaders (widening : Widening) (reader other : Reader) : Prop where
  position : other.position = reader.position
  scope : reader.program.scope = widening.narrow
  program : other.program = reader.program.withScope widening.wide

namespace Reader

variable {reader next final other : Reader} {line line' : SourceLine} {record : Option LogRecord}

/-- **Lines beside further globals**: a line with the same tokens is accepted there, unless it
defines a global. -/
theorem readLine_beside {widening : Widening} (h : widening.RelatesReaders reader other)
    (hline : reader.readLine line = .ok (next, record)) (hsame : line'.tokens? = line.tokens?)
    (hglobal : reader.isInside = false → line.startsWith "global" = false) :
    ∃ next' record', other.readLine line' = .ok (next', record') ∧
      widening.RelatesReaders next next' := by
  obtain ⟨tokens, htokens, ⟨rfl, rfl, rfl⟩ | ⟨hne, position, after, hread, rfl⟩⟩ :=
    readLine_eq_ok.1 hline
  · exact ⟨_, none, readLine_eq_ok.2 ⟨[], hsame.trans htokens, .inl ⟨rfl, rfl, rfl⟩⟩,
      h.position, h.scope, h.program⟩
  have hrelates : widening.Relates
      ⟨reader.line + 1, tokens.map (Token.onLine (reader.line + 1)), reader.program⟩
      ⟨other.line + 1, tokens.map (Token.onLine (other.line + 1)), other.program⟩ :=
    ⟨Token.alike_onLine _ _ tokens, h.scope, h.program⟩
  -- a global line is the one kind that the two readers may not read alike
  have hword : reader.position.openFunction = none →
      ¬ Token.startWith "global" (tokens.map (Token.onLine (reader.line + 1))) := by
    intro hclosed
    have hnot := hglobal (by rw [isInside, hclosed]; rfl)
    rw [SourceLine.startsWith, htokens, Option.any_some] at hnot
    rw [Token.startWith_onLine, hnot]
    exact Bool.false_ne_true
  obtain ⟨⟨position', record'⟩, after', hread', rfl, hafter⟩ :=
    LineReader.sourceLine_mirrors hrelates reader.position hword _ _ hread
  rw [← h.position] at hread'
  exact ⟨_, record', readLine_eq_ok.2 ⟨tokens, hsame.trans htokens,
    .inr ⟨hne, _, _, hread', rfl⟩⟩, rfl, hafter.scope, hafter.program⟩

/-- A line that has defined a global defines the same one wherever the globals are the same. -/
theorem readLine_again (h : reader.program.Reachable) (houtside : reader.isInside = false)
    (hline : reader.readLine line = .ok (next, record)) (hglobal : line.startsWith "global") :
    ∃ wide : Scope, reader.program.scope.Within wide ∧
      next = ⟨reader.line + 1, reader.position, reader.program.withScope wide⟩ ∧
      ∀ other : Reader, other.program.Reachable → other.program.scope = reader.program.scope →
        other.isInside = false → ∀ line' : SourceLine, line'.tokens? = line.tokens? →
        ∃ record', other.readLine line' =
          .ok (⟨other.line + 1, other.position, other.program.withScope wide⟩, record') := by
  obtain ⟨tokens, htokens, ⟨rfl, -, -⟩ | ⟨hne, position, after, hread, rfl⟩⟩ :=
    readLine_eq_ok.1 hline
  · rw [SourceLine.startsWith, htokens] at hglobal
    cases hglobal
  have hword : Token.startWith "global" tokens := by
    rwa [SourceLine.startsWith, htokens, Option.any_some] at hglobal
  have hclosed : reader.position.openFunction = none := by simpa [isInside] using houtside
  rw [LineReader.sourceLine_of_global hclosed (by simpa using hword)] at hread
  obtain ⟨rfl, wide, hwithin, hafter, hagain⟩ := LineReader.globalLine_again h hread
  refine ⟨wide, hwithin, by rw [hafter], fun other hreachable hscope hother line' hsame => ?_⟩
  -- a token of a line is never the end of input, whatever number the line has
  have hmarks : ∀ token ∈ tokens.map (Token.onLine (other.line + 1)), token.kind ≠ .eof := by
    cases line with
    | undecodable => cases htokens
    | text characters =>
      exact Token.kind_ne_eof_of_ofLine (SourceLine.ofLine_of_tokens? htokens _)
  have hclosed' : other.position.openFunction = none := by simpa [isInside] using hother
  obtain ⟨record', hread'⟩ := hagain other.position
    ⟨other.line + 1, tokens.map (Token.onLine (other.line + 1)), other.program⟩ hreachable hscope
    (Token.alike_onLine _ _ tokens) hmarks
  rw [← LineReader.sourceLine_of_global hclosed' (by simpa using hword)] at hread'
  exact ⟨record', readLine_eq_ok.2 ⟨tokens, hsame.trans htokens, .inr ⟨hne, _, _, hread', rfl⟩⟩⟩

/-! ## The same place -/

/-- Two readers have read the same, on lines that may have other numbers. -/
structure SamePlace (reader other : Reader) : Prop where
  position : other.position = reader.position
  program : other.program = reader.program

/-- A reader is at its own place. -/
@[refl] theorem SamePlace.refl (reader : Reader) : reader.SamePlace reader := ⟨rfl, rfl⟩

/-- A line with the same tokens is read in the same way at the same place. -/
theorem readLine_samePlace (hreachable : reader.program.Reachable) (h : reader.SamePlace other)
    (hline : reader.readLine line = .ok (next, record)) (hsame : line'.tokens? = line.tokens?) :
    ∃ next' record', other.readLine line' = .ok (next', record') ∧ next.SamePlace next' := by
  by_cases hglobal : reader.isInside = false ∧ line.startsWith "global"
  · -- a global is defined again with the same globals
    obtain ⟨houtside, hword⟩ := hglobal
    obtain ⟨wide, -, rfl, hagain⟩ := readLine_again hreachable houtside hline hword
    have hinside : other.isInside = false := by
      rw [isInside, h.position]
      exact houtside
    obtain ⟨record', hline'⟩ := hagain other (h.program ▸ hreachable) (by rw [h.program]) hinside
      line' hsame
    exact ⟨_, record', hline', h.position, by rw [h.program]⟩
  · -- any other line is read beside no further globals
    let widening : Widening := ⟨reader.program.scope, reader.program.scope, .refl _⟩
    have hrelates : widening.RelatesReaders reader other :=
      ⟨h.position, rfl, h.program.trans (reader.program.withScope_scope).symm⟩
    have hnot (houtside : reader.isInside = false) : line.startsWith "global" = false :=
      Bool.eq_false_of_not_eq_true fun hword => hglobal ⟨houtside, hword⟩
    obtain ⟨next', record', hline', hafter⟩ := readLine_beside hrelates hline hsame hnot
    have hscope : next.program.scope = widening.wide := hafter.scope
    exact ⟨next', record', hline', hafter.position,
      by rw [hafter.program, ← hscope, Program.withScope_scope]⟩

/-- The same lines are read in the same way at the same place. -/
theorem readLines_samePlace {source : Source} (hreachable : reader.program.Reachable)
    (h : reader.SamePlace other) (hlines : reader.readLines source = .ok final) :
    ∃ final', other.readLines source = .ok final' ∧ final.SamePlace final' := by
  induction source generalizing reader other with
  | nil =>
    obtain rfl := Except.ok.inj hlines
    exact ⟨other, rfl, h⟩
  | cons line rest ih =>
    obtain ⟨next, record, hline, hrest⟩ := readLines_cons_eq_ok.1 hlines
    obtain ⟨next', record', hline', hnext⟩ := readLine_samePlace hreachable h hline rfl
    obtain ⟨final', hrest', hfinal⟩ := ih (reachable_of_readLine hreachable hline) hnext hrest
    exact ⟨final', readLines_cons_eq_ok.2 ⟨next', record', hline', hrest'⟩, hfinal⟩

end Reader

/-- A source that is accepted is accepted, with the same program, after any number of changes, each
of which leads to the same place. -/
theorem Reading.result_of_samePlace {change : Source → Source → Prop}
    (hchange : ∀ {source source' : Source}, change source source' → ∀ {final : Reader},
      ({} : Reader).readLines source = .ok final →
        ∃ final', ({} : Reader).readLines source' = .ok final' ∧ final.SamePlace final')
    {source source' : Source} (h : Relation.ReflTransGen change source source')
    {program : Program} (haccepted : (ofSource source).result = .ok program) :
    (ofSource source').result = .ok program := by
  induction h with
  | refl => exact haccepted
  | tail _ hlast ih =>
    obtain ⟨final, hlines, hclosed, hprogram⟩ := result_ofSource_eq_ok.1 ih
    obtain ⟨final', hlines', hplace⟩ := hchange hlast hlines
    exact result_ofSource_eq_ok.2
      ⟨final', hlines', by rw [hplace.position, hclosed], by rw [hplace.program, hprogram]⟩

end ChainIR
