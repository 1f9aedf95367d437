import Mathlib
import ChainIR.Proofs.Reading.Derivation
import ChainIR.Proofs.Reading.Run

/-! # Where a source defines its functions

Where a source defines its functions is told by the first words of its lines: a function is open
behind a line `def` (`Reader.opens_of_readLine`), stays open on the lines behind it, none of which
may be another line `def`, and is closed by a line `enddef` (`Reader.keeps_of_readLine`). So whether
a function is open at the end is told without reading anything else (`Source.endsInside`). -/

namespace ChainIR

/-- What the third token of a line says, which is the name in the header of a function. -/
def Token.functionName? (tokens : List Token) : Option String := tokens[2]?.map Token.value

namespace SourceLine

/-- Whether the first token of a line is the keyword or operator `word`. -/
def startsWith (word : String) (line : SourceLine) : Bool := line.tokens?.any (Token.startWith word)

/-- The name of the function that a line is the header of. -/
def functionName? (line : SourceLine) : Option String := line.tokens?.bind Token.functionName?

/-- Whether a function is open behind a line, if one is open in front of it or none is. -/
def opens (inside : Bool) (line : SourceLine) : Bool :=
  if inside then !line.startsWith "enddef" else line.startsWith "def"

end SourceLine

/-- Whether a function is open at the end of a source. -/
def Source.endsInside (source : Source) : Bool := source.foldl SourceLine.opens false

/-- A line starts with one word at most. -/
theorem Token.startWith_of_ne {word other : String} {tokens : List Token}
    (h : Token.startWith word tokens) (hne : word ≠ other) :
    Token.startWith other tokens = false := by
  obtain ⟨token, hfirst, hword⟩ := (Option.any_eq_true _ _).1 h
  rw [startWith, hfirst, Option.any_some, Keyword.isWord_eq ⟨token, hword⟩ other,
    decide_eq_false hne]

/-- The number of a line does not matter for its first word. -/
@[simp] theorem Token.startWith_onLine (word : String) (number : Nat) (tokens : List Token) :
    Token.startWith word (tokens.map (Token.onLine number)) = Token.startWith word tokens := by
  cases tokens <;> rfl

/-- The number of a line does not matter for the name in it. -/
@[simp] theorem Token.functionName?_onLine (number : Nat) (tokens : List Token) :
    Token.functionName? (tokens.map (Token.onLine number)) = Token.functionName? tokens := by
  rw [functionName?, functionName?, List.getElem?_map, Option.map_map]
  rfl

namespace LineReader

open Step

variable {state : LineState}

/-! ## Lines outside of functions -/

/-- The header of a function names it. -/
theorem header_names : OnSuccess header state fun header _ =>
    Token.functionName? state.tokens = some header.name := by
  refine (take_onSuccess _).bind fun keyword behind hbehind => ?_
  refine type_denotes.bind fun result typed htyped => ?_
  obtain ⟨type, htype, -⟩ := htyped
  refine (take_onSuccess _).bind fun name named hnamed => .seq fun params _ => ?_
  -- the type and the function of the header are looked up, and it keeps the name that was read
  have hnames {state : LineState} : OnSuccess
      (headerOf result name.value params.1 params.2) state fun header _ =>
        header.name = name.value := by
    refine .seq fun type _ => .seq fun found _ => ?_
    split
    · exact .seq fun _ _ => .pure rfl
    · exact .seq fun _ _ => .pure rfl
  refine hnames.mono fun header _ hname => ?_
  rw [hname, hbehind.1, htype, hnamed.1]
  rfl

/-- A header opens the function that it defines. -/
theorem define_opens (header : Header) :
    OnSuccess (define header) state fun outcome _ =>
      outcome.1.openFunction = some header.name := by
  refine .seq fun entry _ => ?_
  split
  · exact .get (.of_error rfl)
  · exact .seq fun _ _ => .seq fun _ _ => .pure rfl

/-- A line outside of functions opens one exactly if it starts with `def`, and then the one that
it names. -/
theorem topLine_opens {position : Position} (hclosed : position.openFunction = none) :
    OnSuccess (topLine position) state fun outcome _ =>
      outcome.1.openFunction.isSome = Token.startWith "def" state.tokens ∧
        ∀ name, outcome.1.openFunction = some name →
          Token.functionName? state.tokens = some name := by
  refine .bind_of_ok (atWord_apply "def" state) ?_
  split
  · next hword =>
    refine header_names.bind fun header _ hname => ?_
    refine (define_opens header).mono fun outcome _ hopen => ?_
    rw [hopen, Token.startWith, hword]
    exact ⟨rfl, fun _ hsome => hname.trans hsome⟩
  next hword =>
  -- the other lines leave the position as it is
  have hstays {outcome : LineOutcome} (hsame : outcome.1 = position) :
      outcome.1.openFunction.isSome = Token.startWith "def" state.tokens ∧
        ∀ name, outcome.1.openFunction = some name →
          Token.functionName? state.tokens = some name := by
    rw [hsame, hclosed, Token.startWith, Bool.eq_false_of_not_eq_true hword]
    exact ⟨rfl, by simp⟩
  refine .bind_of_ok (atWord_apply "dec" state) ?_
  split
  · refine .seq fun header _ => .seq fun _ _ => .seq fun entry _ => ?_
    split
    · exact .seq fun _ _ => .pure (hstays rfl)
    · exact .pure (hstays rfl)
  refine .bind_of_ok (atWord_apply "global" state) ?_
  split
  · refine .seq fun _ _ => .seq fun _ _ => .get ?_
    split
    · exact .get (.of_error rfl)
    · exact .seq fun _ _ => .seq fun _ _ => .seq fun _ _ => .seq fun _ _ => .pure (hstays rfl)
  refine .bind_of_ok (atWord_apply "enddef" state) ?_
  split
  · exact .get reject_onSuccess
  · exact .get (.pure (hstays rfl))

/-! ## Lines inside functions -/

/-- A keyword that no instruction starts with starts none. -/
theorem instruction_of_keyword {word : String} (hword : Token.startWith word state.tokens)
    (hnone : word ∉ ["ret", "store", "jmp", "cjmp", "call", "alloc", "load"]) :
    OnSuccess instruction state fun _ _ => False := by
  obtain ⟨number, tokens, program⟩ := state
  obtain _ | ⟨token, rest⟩ := tokens
  · cases hword
  let keyword : Token.Keyword word := ⟨token, hword⟩
  have hother : ∀ other ∈ ["ret", "store", "jmp", "cjmp", "call", "alloc", "load"],
      word ≠ other := by
    rintro other hmem rfl
    exact hnone hmem
  simp only [List.forall_mem_cons] at hother
  obtain ⟨hret, hstore, hjmp, hcjmp, hcall, halloc, hload, -⟩ := hother
  have hrun : instruction ⟨number, keyword.1 :: rest, program⟩ =
      unexpected "instruction" ⟨number, keyword.1 :: rest, program⟩ := by
    rw [instruction, atKind_of_ne (keyword.kind_ne (by decide)), atWord_of_ne keyword hret,
      atWord_of_ne keyword hstore, atWord_of_ne keyword hjmp, atWord_of_ne keyword hcjmp, producer,
      atWord_of_ne keyword hcall, atWord_of_ne keyword halloc, atWord_of_ne keyword hload]
  have hnever : OnSuccess (unexpected "instruction" : LineReader InstructionRef)
      ⟨number, keyword.1 :: rest, program⟩ fun _ _ => False := unexpected_onSuccess
  exact fun ref after hok => hnever ref after (hrun.symm.trans hok)

/-- A line inside a function is not the header of another one, and ends the function exactly if it
starts with `enddef`. -/
theorem bodyLine_opens (position : Position) :
    OnSuccess (bodyLine position) state fun outcome _ =>
      Token.startWith "def" state.tokens = false ∧ outcome.1.openFunction =
        if Token.startWith "enddef" state.tokens then none else position.openFunction := by
  refine .get (.bind_of_ok (atWord_apply "enddef" state) ?_)
  split
  · next hword =>
    have hdef := Token.startWith_of_ne hword (show "enddef" ≠ "def" by decide)
    exact .seq fun _ _ => .seq fun _ _ => .pure ⟨hdef, (if_pos hword).symm⟩
  next hword =>
  refine .bind_of_ok (atKind_apply .block state) (.get ?_)
  split
  · next hblock =>
    have hdef : Token.startWith "def" state.tokens = false := by
      rw [Bool.and_eq_true] at hblock
      obtain ⟨token, hfirst, hkind⟩ := (Option.any_eq_true _ _).1 hblock.1
      rw [Token.startWith, hfirst, Option.any_some, Token.isWord, eq_of_beq hkind]
      rfl
    exact .seq fun _ _ => .pure ⟨hdef, (if_neg hword).symm⟩
  · have hdef : OnSuccess instructionLine state fun _ _ =>
        Token.startWith "def" state.tokens = false := by
      cases hword : Token.startWith "def" state.tokens with
      | false => exact fun _ _ _ => rfl
      | true => -- the keyword is no form of an instruction
        exact (instruction_of_keyword hword (by decide)).bind fun _ _ hnever => hnever.elim
    refine hdef.bind fun instruction _ hdef => .seq fun _ _ => .seq fun answer _ => ?_
    split
    · exact .pure ⟨hdef, (if_neg hword).symm⟩
    · exact reject_onSuccess

end LineReader

namespace Reader

/-- Whether a function is open. -/
def isInside (reader : Reader) : Bool := reader.position.openFunction.isSome

variable {reader next final : Reader} {line : SourceLine} {record : Option LogRecord}

/-- A line outside of functions opens one exactly if it starts with `def`, and then the one that
it names. -/
theorem opens_of_readLine (hclosed : reader.position.openFunction = none)
    (h : reader.readLine line = .ok (next, record)) : next.isInside = line.startsWith "def" ∧
      ∀ name, next.position.openFunction = some name → line.functionName? = some name := by
  obtain ⟨tokens, htokens, ⟨rfl, rfl, -⟩ | ⟨-, position, after, hread, rfl⟩⟩ :=
    readLine_eq_ok.1 h
  · rw [SourceLine.startsWith, htokens, isInside, hclosed]
    exact ⟨rfl, by simp⟩
  · rw [LineReader.sourceLine, hclosed] at hread
    have hopens := LineReader.topLine_opens hclosed _ _ hread
    rw [Token.startWith_onLine, Token.functionName?_onLine] at hopens
    rw [SourceLine.startsWith, SourceLine.functionName?, htokens]
    exact hopens

/-- A line inside a function is not the header of another one, and ends the function exactly if it
starts with `enddef`. -/
theorem keeps_of_readLine {name : String} (hopen : reader.position.openFunction = some name)
    (h : reader.readLine line = .ok (next, record)) : line.startsWith "def" = false ∧
      next.position.openFunction = if line.startsWith "enddef" then none else some name := by
  obtain ⟨tokens, htokens, ⟨rfl, rfl, -⟩ | ⟨-, position, after, hread, rfl⟩⟩ :=
    readLine_eq_ok.1 h
  · rw [SourceLine.startsWith, SourceLine.startsWith, htokens]
    exact ⟨rfl, hopen⟩
  · rw [LineReader.sourceLine, hopen] at hread
    have hopens := LineReader.bodyLine_opens reader.position _ _ hread
    rw [Token.startWith_onLine, Token.startWith_onLine, hopen] at hopens
    rw [SourceLine.startsWith, SourceLine.startsWith, htokens]
    exact hopens

/-- Whether a function is open behind an accepted line is told by the first word of the line. -/
theorem isInside_of_readLine (h : reader.readLine line = .ok (next, record)) :
    next.isInside = line.opens reader.isInside := by
  rw [SourceLine.opens]
  cases hopen : reader.position.openFunction with
  | none =>
    rw [(opens_of_readLine hopen h).1, isInside, hopen]
    rfl
  | some name =>
    rw [isInside, (keeps_of_readLine hopen h).2, isInside, hopen]
    cases line.startsWith "enddef" <;> rfl

/-- Whether a function is open behind accepted lines is told by their first words. -/
theorem isInside_of_readLines {source : Source} (h : ({} : Reader).readLines source = .ok final) :
    final.isInside = source.endsInside := by
  suffices hfrom : ∀ {reader : Reader}, reader.readLines source = .ok final →
      final.isInside = source.foldl SourceLine.opens reader.isInside from hfrom h
  clear h
  intro reader h
  induction source generalizing reader with
  | nil =>
    obtain rfl := Except.ok.inj h
    rfl
  | cons line rest ih =>
    obtain ⟨next, record, hline, hrest⟩ := readLines_cons_eq_ok.1 h
    rw [ih hrest, isInside_of_readLine hline, List.foldl_cons]

end Reader

end ChainIR
