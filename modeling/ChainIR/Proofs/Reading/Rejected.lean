import Mathlib
import ChainIR.Proofs.Reading.Inside
import ChainIR.Proofs.Reading.Invariant
import ChainIR.Proofs.Reading.Located

/-! # Sources that are rejected

A source is rejected at the first line that is not accepted, and no line behind it is looked at. So
its error is on this line, and every source with the same lines up to there has the same error
(`Reading.rejects_locally`). Only a source that ends inside a function is rejected behind its last
line; it lacks nothing but the end of the function, and is accepted with it. -/

namespace ChainIR

/-! ## How far a source is read -/

namespace Reader

variable {reader middle final : Reader} {line : SourceLine} {source front back : Source}
  {failure : Failure}

/-- How many lines are read: those up to the first that is rejected, or all of them. -/
def linesRead (reader : Reader) : Source → Nat
  | [] => 0
  | line :: rest =>
    match reader.readLine line with
    | .ok (next, _) => next.linesRead rest + 1
    | .error _ => 1

/-- Of lines that are accepted all are read. -/
theorem linesRead_of_ok (h : reader.readLines source = .ok final) :
    reader.linesRead source = source.length := by
  induction source generalizing reader with
  | nil => rfl
  | cons line rest ih =>
    obtain ⟨next, record, hline, hrest⟩ := readLines_cons_eq_ok.1 h
    rw [linesRead, hline, List.length_cons, ← ih hrest]

/-- Behind a line that is rejected none is read. -/
theorem linesRead_of_error (hfront : reader.readLines front = .ok middle)
    (hline : middle.readLine line = .error failure) (back : Source) :
    reader.linesRead (front ++ line :: back) = front.length + 1 := by
  induction front generalizing reader with
  | nil =>
    obtain rfl := Except.ok.inj hfront
    rw [List.nil_append, linesRead, hline]
    rfl
  | cons first front ih =>
    obtain ⟨next, record, hfirst, hrest⟩ := readLines_cons_eq_ok.1 hfront
    rw [List.cons_append, linesRead, hfirst, List.length_cons, ← ih hrest]

/-- Lines are rejected for the reason for which all others are that begin with those that have been
read. -/
theorem readLines_eq_error_of_take (h : reader.readLines source = .error failure) {other : Source}
    (hsame : other.take (reader.linesRead source) = source.take (reader.linesRead source)) :
    reader.readLines other = .error failure := by
  obtain ⟨front, line, back, middle, rfl, hfront, hline⟩ := readLines_eq_error.1 h
  rw [linesRead_of_error hfront hline] at hsame
  have htake : (front ++ line :: back).take (front.length + 1) = front ++ [line] := by
    rw [List.take_append, List.take_of_length_le (Nat.le_succ _), Nat.add_sub_cancel_left]
    rfl
  have hother : other = front ++ line :: other.drop (front.length + 1) := by
    rw [← List.singleton_append, ← List.append_assoc, ← htake, ← hsame, List.take_append_drop]
  exact readLines_eq_error.2 ⟨front, line, _, middle, hother, hfront, hline⟩

/-- The error of lines is on the last that has been read. -/
theorem isOn_of_readLines {error : ReadError}
    (h : ({} : Reader).readLines source = .error (.rejected error)) :
    error.IsOn (({} : Reader).linesRead source) := by
  obtain ⟨front, line, back, middle, rfl, hfront, hline⟩ := readLines_eq_error.1 h
  have hnumber : middle.line = front.length := by
    rw [line_of_readLines hfront]
    exact Nat.zero_add _
  rw [linesRead_of_error hfront hline, ← hnumber]
  exact isOn_of_readLine hline

end Reader

/-- How many lines of a source are read: those up to the first that is rejected, or all of them. -/
def Source.linesRead (source : Source) : Nat := ({} : Reader).linesRead source

/-! ## Sources that end inside a function -/

/-- A source leaves the function `name` open: it has a header of this name, and behind it neither
another header nor the end of a function. -/
def Source.LeavesOpen (source : Source) (name : String) : Prop :=
  ∃ front header back, source = front ++ header :: back ∧ header.startsWith "def" ∧
    header.functionName? = some name ∧
    ∀ line ∈ back, line.startsWith "def" = false ∧ line.startsWith "enddef" = false

namespace Reader

variable {reader final : Reader} {name : String} {source : Source}

/-- The function that is open behind accepted lines is the one that they leave open. -/
theorem leavesOpen_of_readLines (h : ({} : Reader).readLines source = .ok final)
    (hopen : final.position.openFunction = some name) : source.LeavesOpen name := by
  induction source using List.reverseRecOn generalizing final with
  | nil =>
    obtain rfl := Except.ok.inj h
    cases hopen
  | append_singleton source line ih =>
    obtain ⟨middle, hsource, hlast⟩ := readLines_append_eq_ok.1 h
    obtain ⟨next, record, hline, hnil⟩ := readLines_cons_eq_ok.1 hlast
    obtain rfl := Except.ok.inj hnil
    cases hbefore : middle.position.openFunction with
    | none => -- the last line is the header
      obtain ⟨hinside, hnames⟩ := opens_of_readLine hbefore hline
      have hdef : line.startsWith "def" := by
        rw [← hinside, isInside, hopen]
        rfl
      exact ⟨source, line, [], rfl, hdef, hnames name hopen, List.forall_mem_nil _⟩
    | some other => -- the last line stands in the body
      obtain ⟨hdef, hkeeps⟩ := keeps_of_readLine hbefore hline
      have hend : line.startsWith "enddef" = false := by
        cases hword : line.startsWith "enddef" with
        | false => rfl
        | true =>
          rw [hword, if_pos rfl, hopen] at hkeeps
          cases hkeeps
      rw [hend, if_neg Bool.false_ne_true, hopen] at hkeeps
      obtain rfl := Option.some.inj hkeeps
      obtain ⟨front, header, back, rfl, hheader, hname, hback⟩ := ih hsource hbefore
      refine ⟨front, header, back ++ [line], by simp, hheader, hname, fun behind hmem => ?_⟩
      rcases List.mem_append.1 hmem with hmem | hmem
      · exact hback behind hmem
      · rw [List.mem_singleton.1 hmem]
        exact ⟨hdef, hend⟩

/-- Lines without tokens change nothing but the number of the line. -/
theorem readLines_blank {blanks : Source} (h : ∀ line ∈ blanks, line.tokens? = some []) :
    reader.readLines blanks = .ok { reader with line := reader.line + blanks.length } := by
  induction blanks generalizing reader with
  | nil => rfl
  | cons line rest ih =>
    obtain ⟨hline, hrest⟩ := List.forall_mem_cons.1 h
    rw [readLines_cons_of_ok (readLine_of_nil hline), ih hrest, List.length_cons,
      Nat.add_comm rest.length, ← Nat.add_assoc]

/-- A line `enddef` closes the function that is open. -/
theorem readLine_end (hopen : reader.position.openFunction = some name) :
    reader.readLine (.text "enddef".toList) = .ok
      (⟨reader.line + 1, { reader.position with openFunction := none }, reader.program⟩, none) := by
  refine readLine_eq_ok.2 ⟨[⟨.identifier, "enddef", 0⟩], by decide +kernel,
    .inr ⟨List.cons_ne_nil _ _, _, ⟨reader.line + 1, [], reader.program⟩, ?_, rfl⟩⟩
  rw [LineReader.sourceLine, hopen]
  rfl

/-- A source that ends inside a function is accepted with the end of the function. -/
theorem accepts_end (h : ({} : Reader).readLines source = .ok final)
    (hopen : final.position.openFunction = some name) (blanks : Source)
    (hblanks : ∀ line ∈ blanks, line.tokens? = some []) :
    (Reading.ofSource (source ++ (blanks ++ [.text "enddef".toList]))).result =
      .ok final.program := by
  let behind : Reader := { final with line := final.line + blanks.length }
  have hbehind : behind.position.openFunction = some name := hopen
  have hend := readLines_append_eq_ok.2
    ⟨behind, readLines_blank hblanks, readLines_cons_of_ok (readLine_end hbehind) []⟩
  exact Reading.result_ofSource_eq_ok.2 ⟨_, readLines_append_eq_ok.2 ⟨final, h, hend⟩, rfl, rfl⟩

end Reader

/-- A line that is put behind a text is its last one, perhaps behind an empty one. -/
theorem Source.exists_ofText_append (text line : String) (hfeed : '\n' ∉ line.toList)
    (hnonempty : line.toList ≠ []) : ∃ blanks : Source,
      (∀ blank ∈ blanks, blank.tokens? = some []) ∧
      ofText (text ++ "\n" ++ line) = ofText text ++ (blanks ++ [.text line.toList]) := by
  have htext : (text ++ "\n" ++ line).toList = text.toList ++ '\n' :: line.toList := by simp
  have hline := terminated_of_not_mem hfeed hnonempty
  rcases terminated_append '\n' text.toList line.toList with hcut | hcut
  · refine ⟨[], List.forall_mem_nil _, ?_⟩
    rw [ofText, htext, hcut, hline, List.map_append]
    rfl
  · refine ⟨[.text []], by simp [SourceLine.tokens?_text_eq_some]; rfl, ?_⟩
    rw [ofText, htext, hcut, hline, List.map_append]
    rfl

namespace Reading

/-- **Errors are local**: a text that is rejected is rejected for what stands in the lines that have
been read, the error names the last of them and no other line, and every source with the same lines
up to there has the same error. Only a text that ends inside a function is rejected for its end: all
of its lines have been read, the function is that of its last header, and with a line `enddef` it is
accepted. -/
theorem rejects_locally {text : String} {error : ReadError}
    (hrejected : (ofText text).result = .error (.rejected error)) :
    ((∀ name, error ≠ .unterminatedFunction name) →
      (∀ number ∈ error.lines, number = (Source.ofText text).linesRead) ∧
      ∀ other : Source, other.take (Source.ofText text).linesRead =
          (Source.ofText text).take (Source.ofText text).linesRead →
        (ofSource other).result = .error (.rejected error)) ∧
    ∀ name, error = .unterminatedFunction name →
      (Source.ofText text).linesRead = (Source.ofText text).length ∧
      (Source.ofText text).LeavesOpen name ∧
      ∃ program, (ofText (text ++ "\nenddef")).result = .ok program ∧
        (ofSource (Source.ofText text ++ [.text "enddef".toList])).result = .ok program := by
  rw [ofText, ofSource, result_ofLines_eq] at hrejected
  cases hlines : ({} : Reader).readLines (Source.ofText text) with
  | error failure =>
    -- a line is rejected
    rw [hlines] at hrejected
    obtain rfl := Except.error.inj hrejected
    have hon := Reader.isOn_of_readLines hlines
    refine ⟨fun _ => ⟨hon.lines, fun other hsame => ?_⟩, fun name hname => ?_⟩
    · rw [ofSource, result_ofLines_eq, Reader.readLines_eq_error_of_take hlines hsame]
      rfl
    · exact absurd hname (hon.notAtEnd name)
  | ok final =>
    -- the text ends inside a function
    rw [hlines] at hrejected
    have hclose : final.close = .error (.rejected error) := hrejected
    rw [Reader.close] at hclose
    split at hclose
    · cases hclose
    next function hopen =>
    obtain rfl := Failure.rejected.inj (Except.error.inj hclose)
    refine ⟨fun hnot => absurd rfl (hnot function), fun name hname => ?_⟩
    obtain rfl := ReadError.unterminatedFunction.inj hname
    refine ⟨Reader.linesRead_of_ok hlines, Reader.leavesOpen_of_readLines hlines hopen,
      final.program, ?_, Reader.accepts_end hlines hopen [] (List.forall_mem_nil _)⟩
    obtain ⟨blanks, hblanks, htext⟩ :=
      Source.exists_ofText_append text "enddef" (by decide) (by decide)
    have happend : text ++ "\nenddef" = text ++ "\n" ++ "enddef" := by
      rw [String.append_assoc]
      rfl
    rw [ofText, happend, htext]
    exact Reader.accepts_end hlines hopen blanks hblanks

/-- Whether a text is rejected with an error. -/
def rejects (text : String) (error : ReadError) : Bool :=
  match (ofText text).result with
  | .error (.rejected found) => found = error
  | _ => false

/-- A text that is rejected with an error has this error. -/
theorem result_of_rejects {text : String} {error : ReadError} (h : rejects text error) :
    (ofText text).result = .error (.rejected error) := by
  rw [rejects] at h
  split at h
  · next found hfound => rw [hfound, of_decide_eq_true h]
  · exact absurd h Bool.false_ne_true

/-- A global that is not known is told on the fourth line, whatever stands behind it, and a text
lacks the end of a function. -/
theorem rejects_locally_global_and_end :
    (∀ other : Source,
      other.take 4 = (Source.ofText "note\n\ndef num f\nret $g\nenddef\n").take 4 →
      (ofSource other).result = .error (.rejected (.unknownGlobal ⟨.global, "g", 4⟩))) ∧
    (ofText "def num f\nret const num 1").result =
      .error (.rejected (.unterminatedFunction "f")) ∧
    ∃ program, (ofText "def num f\nret const num 1\nenddef").result = .ok program := by
  have hglobal : (ofText "note\n\ndef num f\nret $g\nenddef\n").result =
      .error (.rejected (.unknownGlobal ⟨.global, "g", 4⟩)) :=
    result_of_rejects (by decide +kernel)
  have hread : (Source.ofText "note\n\ndef num f\nret $g\nenddef\n").linesRead = 4 := by
    decide +kernel
  have hend : (ofText "def num f\nret const num 1").result =
      .error (.rejected (.unterminatedFunction "f")) := result_of_rejects (by decide +kernel)
  obtain ⟨-, -, program, hprogram, -⟩ := (rejects_locally hend).2 "f" rfl
  have hlocal := ((rejects_locally hglobal).1 (by simp)).2
  rw [hread] at hlocal
  exact ⟨hlocal, hend, program, hprogram⟩

end Reading

end ChainIR
