import Mathlib
import ChainIR.Proofs.Reading.Beside
import ChainIR.Proofs.Token.Spacing

/-! # The layout of a source

Blanks between the tokens of a source, blank lines, the ends of lines and lines that are passed over
may be put in anywhere (`Source.Relaid`): the source is accepted as before, and gives the same
program, entry by entry (`Reading.accepts_relaid`). Only the numbers of lines change, and nothing of
a program depends on them. -/

namespace ChainIR

/-- A source is laid out in another way. -/
inductive Source.Relay : Source → Source → Prop
  /-- One of its lines is. -/
  | line (before after : Source) {line line' : List Char} (relaid : LineRelaid line line') :
      Relay (before ++ .text line :: after) (before ++ .text line' :: after)
  /-- A line of spaces and tabs is put in. -/
  | blank (before after : Source) {line : List Char} (blank : ∀ c ∈ line, c = ' ' ∨ c = '\t') :
      Relay (before ++ after) (before ++ .text line :: after)
  /-- A line that is passed over is put in outside of functions: it can be cut into tokens, and none
  of the keywords stands first. -/
  | skipped (before after : Source) {line : SourceLine} (outside : before.endsInside = false)
      (tokenizes : line.tokens?.isSome)
      (skipped : ∀ word ∈ ["def", "dec", "global", "enddef"], line.startsWith word = false) :
      Relay (before ++ after) (before ++ line :: after)

/-- A source is laid out in another way, by any number of changes. -/
def Source.Relaid : Source → Source → Prop := Relation.ReflTransGen Source.Relay

namespace LineReader

/-- A line outside of functions that no keyword starts is passed over. -/
theorem sourceLine_skipped {position : Position} (hclosed : position.openFunction = none)
    (state : LineState) (hwords : ∀ word ∈ ["def", "dec", "global", "enddef"],
      Token.startWith word state.tokens = false) :
    ∃ record, sourceLine position state = .ok ((position, record), state) := by
  refine ⟨some ⟨.warn, "skipping line " ++ toString state.line ++ ": " ++
    " ".intercalate (state.tokens.map Token.text)⟩, ?_⟩
  rw [sourceLine, hclosed]
  show topLine position state = _
  obtain ⟨number, tokens, program⟩ := state
  obtain _ | ⟨token, rest⟩ := tokens
  · rfl
  have hnot : ∀ word ∈ ["def", "dec", "global", "enddef"], ¬ token.isWord word :=
    fun word hmem => Bool.eq_false_iff.1 (hwords word hmem)
  rw [topLine, atWord_of_not (hnot _ (by decide)), atWord_of_not (hnot _ (by decide)),
    atWord_of_not (hnot _ (by decide)), atWord_of_not (hnot _ (by decide))]
  rfl

end LineReader

namespace Reader

variable {reader final : Reader} {line : SourceLine} {record : Option LogRecord}

/-- A line that is passed over changes nothing but the number of the line. -/
theorem readLine_skipped (houtside : reader.isInside = false) (htokens : line.tokens?.isSome)
    (hwords : ∀ word ∈ ["def", "dec", "global", "enddef"], line.startsWith word = false) :
    ∃ record, reader.readLine line = .ok ({ reader with line := reader.line + 1 }, record) := by
  obtain ⟨tokens, htokens⟩ := Option.isSome_iff_exists.1 htokens
  by_cases hne : tokens = []
  · exact ⟨none, readLine_of_nil (hne ▸ htokens)⟩
  have hclosed : reader.position.openFunction = none := by simpa [isInside] using houtside
  obtain ⟨record, hread⟩ := LineReader.sourceLine_skipped hclosed ⟨reader.line + 1,
    tokens.map (Token.onLine (reader.line + 1)), reader.program⟩ fun word hmem => by
      have hword := hwords word hmem
      rw [SourceLine.startsWith, htokens, Option.any_some] at hword
      rw [Token.startWith_onLine, hword]
  exact ⟨record, readLine_eq_ok.2 ⟨tokens, htokens, .inr ⟨hne, _, _, hread, rfl⟩⟩⟩

/-- A line that changes nothing but the number of the line may be put in. -/
theorem readLines_insert {source : Source} (hreachable : reader.program.Reachable)
    (hline : reader.readLine line = .ok ({ reader with line := reader.line + 1 }, record))
    (hlines : reader.readLines source = .ok final) :
    ∃ final', reader.readLines (line :: source) = .ok final' ∧ final.SamePlace final' := by
  have hplace : reader.SamePlace { reader with line := reader.line + 1 } := ⟨rfl, rfl⟩
  obtain ⟨final', hrest, hfinal⟩ := readLines_samePlace hreachable hplace hlines
  exact ⟨final', readLines_cons_eq_ok.2 ⟨_, _, hline, hrest⟩, hfinal⟩

end Reader

open Reader in
/-- One change of the layout leaves what is read as it is. -/
theorem Source.Relay.readLines {source source' : Source} (h : source.Relay source')
    {final : Reader} (hlines : ({} : Reader).readLines source = .ok final) :
    ∃ final', ({} : Reader).readLines source' = .ok final' ∧ final.SamePlace final' := by
  cases h with
  | line before after hrelaid =>
    obtain ⟨middle, hbefore, hrest⟩ := readLines_append_eq_ok.1 hlines
    obtain ⟨next, record, hline, hafter⟩ := readLines_cons_eq_ok.1 hrest
    have hreachable := reachable_of_readLines hbefore
    obtain ⟨tokens, htokens, -⟩ := readLine_eq_ok.1 hline
    -- the line is another text with the same tokens
    have htokens' := SourceLine.tokens?_text_eq_some.2
      (hrelaid.ofLine_eq (SourceLine.tokens?_text_eq_some.1 htokens))
    obtain ⟨next', record', hline', hnext⟩ :=
      readLine_samePlace hreachable (.refl middle) hline (htokens'.trans htokens.symm)
    obtain ⟨final', hafter', hfinal⟩ :=
      readLines_samePlace (reachable_of_readLine hreachable hline) hnext hafter
    exact ⟨final', readLines_append_eq_ok.2
      ⟨middle, hbefore, readLines_cons_eq_ok.2 ⟨next', record', hline', hafter'⟩⟩, hfinal⟩
  | blank before after hblank =>
    obtain ⟨middle, hbefore, hafter⟩ := readLines_append_eq_ok.1 hlines
    have hnil := SourceLine.tokens?_text_eq_some.2 (Token.ofLine_of_blank hblank 0)
    obtain ⟨final', hrest, hfinal⟩ :=
      readLines_insert (reachable_of_readLines hbefore) (readLine_of_nil hnil) hafter
    exact ⟨final', readLines_append_eq_ok.2 ⟨middle, hbefore, hrest⟩, hfinal⟩
  | skipped before after houtside htokens hwords =>
    obtain ⟨middle, hbefore, hafter⟩ := readLines_append_eq_ok.1 hlines
    obtain ⟨record, hline⟩ := readLine_skipped
      ((isInside_of_readLines hbefore).trans houtside) htokens hwords
    obtain ⟨final', hrest, hfinal⟩ :=
      readLines_insert (reachable_of_readLines hbefore) hline hafter
    exact ⟨final', readLines_append_eq_ok.2 ⟨middle, hbefore, hrest⟩, hfinal⟩

namespace Reading

/-- **The layout of a source does not matter**: however it is laid out in another way, a text that
is accepted is accepted still, with the same program. -/
theorem accepts_relaid {text text' : String}
    (hrelaid : (Source.ofText text).Relaid (Source.ofText text')) {program : Program}
    (haccepted : (ofText text).result = .ok program) : (ofText text').result = .ok program :=
  result_of_samePlace Source.Relay.readLines hrelaid haccepted

/-- A line that is passed over, a space, a carriage return, a blank line, a tab inside a literal and
a space at the end of a line are put in one after the other. -/
theorem accepts_relaid_everywhere : ∃ program : Program,
    (ofText "def num f\nret const str \"a b\"\nenddef\n").result = .ok program ∧
    (ofText "note\ndef  num f\r\n \t\nret const str \"a\t b\"\nenddef \n").result =
      .ok program ∧
    program.values.get? ⟨0⟩ = some (.constant ⟨⟨2⟩, .str "a b"⟩) := by
  -- six edits, each of another kind, lead from one text to the other
  have hpassed : Source.Relay (Source.ofText "def num f\nret const str \"a b\"\nenddef\n")
      (Source.ofText "note\ndef num f\nret const str \"a b\"\nenddef\n") :=
    .skipped [] _ (by decide +kernel) (by decide +kernel) (by decide +kernel)
  have hspaced : Source.Relay
      (Source.ofText "note\ndef num f\nret const str \"a b\"\nenddef\n")
      (Source.ofText "note\ndef  num f\nret const str \"a b\"\nenddef\n") :=
    .line [.text "note".toList] (Source.ofText "ret const str \"a b\"\nenddef\n")
      (.spaceBetween "def".toList "num f".toList ⟨_, rfl⟩)
  have hreturned : Source.Relay
      (Source.ofText "note\ndef  num f\nret const str \"a b\"\nenddef\n")
      (Source.ofText "note\ndef  num f\r\nret const str \"a b\"\nenddef\n") :=
    .line [.text "note".toList] (Source.ofText "ret const str \"a b\"\nenddef\n")
      (.carriageReturn "def  num f".toList)
  have hblanks : ∀ c ∈ [' ', '\t'], c = ' ' ∨ c = '\t' := by simp
  have hblank : Source.Relay
      (Source.ofText "note\ndef  num f\r\nret const str \"a b\"\nenddef\n")
      (Source.ofText "note\ndef  num f\r\n \t\nret const str \"a b\"\nenddef\n") :=
    .blank (Source.ofText "note\ndef  num f\r\n") _ hblanks
  have htabbed : Source.Relay
      (Source.ofText "note\ndef  num f\r\n \t\nret const str \"a b\"\nenddef\n")
      (Source.ofText "note\ndef  num f\r\n \t\nret const str \"a\t b\"\nenddef\n") :=
    .line (Source.ofText "note\ndef  num f\r\n \t\n") [.text "enddef".toList]
      (.tab "ret const str \"a".toList " b\"".toList (by decide +kernel))
  have hended : Source.Relay
      (Source.ofText "note\ndef  num f\r\n \t\nret const str \"a\t b\"\nenddef\n")
      (Source.ofText "note\ndef  num f\r\n \t\nret const str \"a\t b\"\nenddef \n") :=
    .line (Source.ofText "note\ndef  num f\r\n \t\nret const str \"a\t b\"\n") []
      (.spaceAtEnd "enddef".toList [] (by decide +kernel))
  have hrelaid := ((((Relation.ReflTransGen.single hpassed).tail hspaced).tail hreturned).tail
    hblank).tail htabbed |>.tail hended
  have haccepted : accepts "def num f\nret const str \"a b\"\nenddef\n" fun program =>
      program.values.get? ⟨0⟩ = some (.constant ⟨⟨2⟩, .str "a b"⟩) := by
    decide +kernel
  obtain ⟨program, hread, htest⟩ := exists_of_accepts haccepted
  exact ⟨program, hread, accepts_relaid hrelaid hread, of_decide_eq_true htest⟩

end Reading

end ChainIR
