import Mathlib
import ChainIR.Proofs.Step
import ChainIR.Proofs.Token.Numbered
import ChainIR.Reading.Reader

/-! # Reading line after line

A source is read by reading its lines one after the other (`Reader.readLines`) and closing behind
the last one. Parts of a source are read one after the other as well
(`Reader.readLines_append_eq_ok`), so a statement about a source is one about a single line
(`Reader.readLine_eq_ok`) and an induction. -/

namespace ChainIR

/-! ## Lines in a row -/

namespace Reader

variable {reader next final : Reader}

/-- Reading starts from the initial program. -/
theorem program_start : ({} : Reader).program = Program.initial := by with_reducible rfl

/-- Read several lines, one after the other. -/
def readLines (reader : Reader) : Source → Except Failure Reader
  | [] => .ok reader
  | line :: rest =>
    match reader.readLine line with
    | .ok (next, _) => next.readLines rest
    | .error failure => .error failure

@[simp] theorem readLines_nil (reader : Reader) : reader.readLines [] = .ok reader := rfl

/-- A line that is accepted hands on to the lines behind it. -/
theorem readLines_cons_of_ok {line : SourceLine} {record : Option LogRecord}
    (h : reader.readLine line = .ok (next, record)) (rest : Source) :
    reader.readLines (line :: rest) = next.readLines rest := by
  rw [readLines, h]

/-- A line that is rejected ends the reading. -/
theorem readLines_cons_of_error {line : SourceLine} {failure : Failure}
    (h : reader.readLine line = .error failure) (rest : Source) :
    reader.readLines (line :: rest) = .error failure := by
  rw [readLines, h]

/-- Lines are accepted exactly if the first of them is, and the others behind it. -/
theorem readLines_cons_eq_ok {line : SourceLine} {rest : Source} :
    reader.readLines (line :: rest) = .ok final ↔
      ∃ next record, reader.readLine line = .ok (next, record) ∧
        next.readLines rest = .ok final := by
  cases hline : reader.readLine line with
  | error failure => simp [readLines_cons_of_error hline]
  | ok result =>
    obtain ⟨next, record⟩ := result
    simp [readLines_cons_of_ok hline]

/-- Parts of a source are read one after the other. -/
theorem readLines_append_of_ok {front : Source} (h : reader.readLines front = .ok next)
    (back : Source) : reader.readLines (front ++ back) = next.readLines back := by
  induction front generalizing reader with
  | nil =>
    obtain rfl := Except.ok.inj h
    rfl
  | cons line front ih =>
    obtain ⟨between, record, hline, hfront⟩ := readLines_cons_eq_ok.1 h
    rw [List.cons_append, readLines_cons_of_ok hline, ih hfront]

/-- **Reading in parts**: a source is accepted exactly if its parts are. -/
theorem readLines_append_eq_ok {front back : Source} :
    reader.readLines (front ++ back) = .ok final ↔
      ∃ middle, reader.readLines front = .ok middle ∧ middle.readLines back = .ok final := by
  constructor
  · intro h
    induction front generalizing reader with
    | nil => exact ⟨reader, rfl, h⟩
    | cons line front ih =>
      obtain ⟨next, record, hline, hrest⟩ := readLines_cons_eq_ok.1 h
      obtain ⟨middle, hfront, hback⟩ := ih hrest
      exact ⟨middle, by rw [readLines_cons_of_ok hline, hfront], hback⟩
  · rintro ⟨middle, hfront, hback⟩
    rw [readLines_append_of_ok hfront, hback]

/-- Lines are rejected exactly if one of them is, behind others that are accepted. -/
theorem readLines_eq_error {source : Source} {failure : Failure} :
    reader.readLines source = .error failure ↔ ∃ front line back middle,
      source = front ++ line :: back ∧ reader.readLines front = .ok middle ∧
        middle.readLine line = .error failure := by
  constructor
  · intro h
    induction source generalizing reader with
    | nil => cases h
    | cons line rest ih =>
      cases hline : reader.readLine line with
      | error other =>
        obtain rfl := Except.error.inj ((readLines_cons_of_error hline rest).symm.trans h)
        exact ⟨[], line, rest, reader, rfl, rfl, hline⟩
      | ok result =>
        obtain ⟨next, record⟩ := result
        rw [readLines_cons_of_ok hline] at h
        obtain ⟨front, last, back, middle, rfl, hfront, hlast⟩ := ih h
        exact ⟨line :: front, last, back, middle, rfl,
          by rw [readLines_cons_of_ok hline, hfront], hlast⟩
  · rintro ⟨front, line, back, middle, rfl, hfront, hline⟩
    rw [readLines_append_of_ok hfront, readLines_cons_of_error hline]

/-- A line is accepted exactly if it can be cut into tokens, and there are none of them or they are
accepted with the number of the line. -/
theorem readLine_eq_ok {line : SourceLine} {record : Option LogRecord} :
    reader.readLine line = .ok (next, record) ↔ ∃ tokens, line.tokens? = some tokens ∧
      (tokens = [] ∧ next = { reader with line := reader.line + 1 } ∧ record = none ∨
        tokens ≠ [] ∧ ∃ position after, LineReader.sourceLine reader.position
            ⟨reader.line + 1, tokens.map (Token.onLine (reader.line + 1)), reader.program⟩ =
              .ok ((position, record), after) ∧
          next = ⟨reader.line + 1, position, after.program⟩) := by
  cases line with
  | undecodable => simp [readLine, SourceLine.tokens?]
  | text characters =>
    rw [readLine]
    dsimp only
    cases hnumbered : Token.ofLine (reader.line + 1) characters with
    | error error =>
      -- a tokenizer that fails on one number fails on all
      have hnone : (SourceLine.text characters).tokens? = none := by
        refine Option.eq_none_iff_forall_ne_some.2 fun tokens htokens => ?_
        exact absurd ((SourceLine.ofLine_of_tokens? htokens _).symm.trans hnumbered) (by simp)
      simp [hnone]
    | ok numbered =>
      obtain ⟨tokens, htokens, rfl⟩ := SourceLine.exists_tokens?_of_ofLine hnumbered
      simp only [htokens, Option.some.injEq, exists_eq_left']
      cases tokens with
      | nil => simp [eq_comm]
      | cons token tokens =>
        rw [List.map_cons]
        dsimp only
        rw [readTokens, StateT.run]
        cases hread : LineReader.sourceLine reader.position ⟨reader.line + 1,
          token.onLine (reader.line + 1) :: tokens.map (Token.onLine (reader.line + 1)),
          reader.program⟩ with
        | error failure => simp
        | ok result =>
          obtain ⟨⟨position, made⟩, after⟩ := result
          simp [eq_comm, and_comm]

/-- A line without tokens changes nothing but the number of the line. -/
theorem readLine_of_nil {line : SourceLine} (h : line.tokens? = some []) :
    reader.readLine line = .ok ({ reader with line := reader.line + 1 }, none) :=
  readLine_eq_ok.2 ⟨[], h, .inl ⟨rfl, rfl, rfl⟩⟩

/-- Every line that is read is counted. -/
theorem line_of_readLine {line : SourceLine} {record : Option LogRecord}
    (h : reader.readLine line = .ok (next, record)) : next.line = reader.line + 1 := by
  obtain ⟨tokens, -, ⟨-, rfl, -⟩ | ⟨-, position, after, -, rfl⟩⟩ := readLine_eq_ok.1 h
  · rfl
  · rfl

/-- All lines that are read are counted. -/
theorem line_of_readLines {source : Source} (h : reader.readLines source = .ok final) :
    final.line = reader.line + source.length := by
  induction source generalizing reader with
  | nil =>
    obtain rfl := Except.ok.inj h
    rfl
  | cons line rest ih =>
    obtain ⟨next, record, hline, hrest⟩ := readLines_cons_eq_ok.1 h
    rw [ih hrest, line_of_readLine hline, List.length_cons]
    omega

/-- What every accepted line keeps up, accepted lines in a row do. -/
theorem property_of_readLines {property : Reader → Prop}
    (hstep : ∀ {reader next line record}, property reader →
      reader.readLine line = .ok (next, record) → property next)
    (h : property reader) {source : Source} (hrun : reader.readLines source = .ok final) :
    property final := by
  induction source generalizing reader with
  | nil =>
    obtain rfl := Except.ok.inj hrun
    exact h
  | cons line rest ih =>
    obtain ⟨next, record, hline, hrest⟩ := readLines_cons_eq_ok.1 hrun
    exact ih (hstep h hline) hrest

end Reader

/-! ## The end of a source -/

namespace Reading

/-- What comes of reading is what comes of the lines and of closing behind them. -/
theorem result_ofLines_eq (reader : Reader) (source : Source) :
    (ofLines reader source).result = reader.readLines source >>= Reader.close := by
  induction source generalizing reader with
  | nil => rfl
  | cons line rest ih =>
    rw [ofLines]
    cases hline : reader.readLine line with
    | error failure => rw [Reader.readLines_cons_of_error hline]; rfl
    | ok result =>
      obtain ⟨next, record⟩ := result
      rw [Reader.readLines_cons_of_ok hline, ← ih next]
      rfl

/-- A source is accepted exactly if its lines are, and no function is open behind them. -/
theorem result_ofSource_eq_ok {source : Source} {program : Program} :
    (ofSource source).result = .ok program ↔ ∃ final, ({} : Reader).readLines source = .ok final ∧
      final.position.openFunction = none ∧ final.program = program := by
  rw [ofSource, result_ofLines_eq, Program.query_bind_eq_ok]
  refine exists_congr fun final => and_congr_right fun _ => ?_
  rw [Reader.close]
  cases final.position.openFunction with
  | none => simp
  | some name => simp

end Reading

end ChainIR
