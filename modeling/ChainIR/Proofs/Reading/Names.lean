import Mathlib
import ChainIR.Proofs.Reading.Described
import ChainIR.Proofs.Symbols
import ChainIR.Proofs.Token.Rendering

/-! # The names that lines hold

The lines of a survey are the tokens of lines of its source (`Survey.exists_line_of_ofSource?`), so
what a statement names has been a token of some line. The names in a jump are values of marked or
plain tokens, which hold no spaces, tabs and line feeds; carriage returns they may hold
(`Reading.exists_jump`). -/

namespace ChainIR

/-! ## The tokens of surveys -/

namespace Opening

/-- The lines of a definition have tokens of its body. -/
theorem tokens_mem_of_mem {opening : Opening} {label : String} {body : List (List Token)}
    {line : InstructionLine} (h : line ∈ opening.linesUnder label body) : line.tokens ∈ body := by
  induction body generalizing label with
  | nil => exact absurd h List.not_mem_nil
  | cons tokens rest ih =>
    rw [linesUnder] at h
    split at h
    · exact .tail _ (ih h)
    · rcases List.mem_cons.1 h with rfl | h
      · exact .head _
      · exact .tail _ (ih h)

end Opening

namespace Survey

variable {property : List Token → Prop} {survey next : Survey}

/-- The lines between headers and ends have a property. -/
def AllLines (survey : Survey) (property : List Token → Prop) : Prop :=
  ∀ definition ∈ survey.definitions, ∀ tokens ∈ definition.body, property tokens

/-- A line outside of definitions adds none to them. -/
theorem AllLines.readTopLine? (h : survey.AllLines property) (hclosed : survey.current = none)
    {tokens : List Token} (hread : survey.readTopLine? tokens = some next) :
    next.AllLines property := by
  rw [Survey.readTopLine?] at hread
  split at hread
  · obtain ⟨⟨prototype, names⟩, -, rfl⟩ := Option.map_eq_some_iff.1 hread
    -- the definition that begins has no lines yet
    intro definition hmem line hline
    rw [definitions_of_some rfl] at hmem
    rcases List.mem_append.1 hmem with hended | hnew
    · exact h definition (by rwa [definitions_of_none hclosed]) line hline
    · obtain rfl := List.mem_singleton.1 hnew
      exact absurd hline List.not_mem_nil
  split at hread
  · obtain ⟨⟨prototype, names⟩, -, rfl⟩ := Option.map_eq_some_iff.1 hread
    exact h
  split at hread
  · obtain ⟨binding, -, rfl⟩ := Option.map_eq_some_iff.1 hread
    exact h
  · obtain rfl := Option.some.inj hread
    exact h

/-- A line of a definition is the only one that is new. -/
theorem AllLines.readLine? (h : survey.AllLines property) {tokens : List Token}
    (htokens : property tokens) (hread : survey.readLine? tokens = some next) :
    next.AllLines property := by
  rw [Survey.readLine?] at hread
  split at hread
  · next definition hopen =>
    split at hread
    · obtain rfl := Option.some.inj hread
      intro ended hmem
      rw [definitions_of_none rfl] at hmem
      exact h ended hmem
    · obtain rfl := Option.some.inj hread
      rw [AllLines, definitions_of_some hopen] at h
      intro other hmem line hline
      rw [definitions_of_some rfl] at hmem
      rcases List.mem_append.1 hmem with hended | hlast
      · exact h other (List.mem_append_left _ hended) line hline
      · obtain rfl := List.mem_singleton.1 hlast
        rcases List.mem_append.1 hline with hold | hnew
        · exact h definition (List.mem_append_right _ (.head _)) line hold
        · rwa [List.mem_singleton.1 hnew]
  · next hclosed => exact h.readTopLine? hclosed hread

/-- What holds of the tokens of all physical lines holds of the lines of definitions. -/
theorem AllLines.readLines? {source : Source} (h : survey.AllLines property) {number : Nat}
    (htokens : ∀ position characters tokens, .text characters ∈ source →
      Token.ofLine position characters = .ok tokens → property tokens)
    (hread : survey.readLines? number source = some next) : next.AllLines property := by
  induction source generalizing survey number with
  | nil => rwa [← Option.some.inj hread]
  | cons line rest ih =>
    obtain ⟨between, hline, hrest⟩ := Option.bind_eq_some_iff.1 hread
    refine ih ?_ (fun position characters tokens hmem => htokens position characters tokens
      (.tail _ hmem)) hrest
    cases line with
    | undecodable => cases hline
    | text characters =>
      rw [readSourceLine?] at hline
      split at hline
      · cases hline
      · rwa [← Option.some.inj hline]
      · next token tokens hlex => exact h.readLine? (htokens _ _ _ (.head _) hlex) hline

/-- The lines of a survey are lines of the source. -/
theorem exists_line_of_ofSource? {source : Source} (h : ofSource? source = some survey)
    {line : InstructionLine} (hline : line ∈ survey.lines) : ∃ number characters,
      .text characters ∈ source ∧ Token.ofLine number characters = .ok line.tokens := by
  rw [ofSource?, Option.filter_eq_some_iff] at h
  have hall : survey.AllLines fun tokens => ∃ number characters,
      .text characters ∈ source ∧ Token.ofLine number characters = .ok tokens := by
    have hnone : AllLines {} fun tokens => ∃ number characters,
        .text characters ∈ source ∧ Token.ofLine number characters = .ok tokens :=
      fun _ hmem => absurd hmem List.not_mem_nil
    exact hnone.readLines? (fun number characters _ hmem hlex => ⟨number, characters, hmem, hlex⟩)
      h.1
  obtain ⟨definition, hdefinition, hmem, -⟩ := exists_of_mem_lines hline
  exact hall definition hdefinition line.tokens (Opening.tokens_mem_of_mem hmem)

end Survey

/-! ## The names in jumps -/

/-- A token that can be written has no spaces, tabs and line feeds, unless it is a string. -/
theorem Token.Writable.unspaced {token : Token} (h : token.Writable)
    (hkind : token.kind ≠ .string) : Unspaced token.value.toList := by
  obtain ⟨kind, value, line⟩ := token
  cases kind with
  | string => exact absurd rfl hkind
  | char | eof => exact h.elim
  | register | block | global => exact h
  | identifier | number | operator => exact h.1

/-- The name of an operand that has one. -/
def Operand.name? : Operand → Option String
  | .register name _ => some name
  | .global name _ => some name
  | .constant _ => none

/-- The names in a jump: those of its condition and its targets. -/
def Statement.jumpNames {κ : Type} : Statement κ → List String
  | .jump target => [target]
  | .branch condition whenTrue whenFalse => condition.name?.toList ++ [whenTrue, whenFalse]
  | _ => []

/-- Finding callees leaves the names in jumps alone. -/
theorem Statement.jumpNames_resolve {prototypes : List Prototype} {statement : Statement String}
    {resolved : Statement Callee} (h : statement.resolve prototypes = some resolved) :
    resolved.jumpNames = statement.jumpNames := by
  cases statement with
  | produce producer | assign name producer =>
    obtain ⟨found, -, rfl⟩ := Option.map_eq_some_iff.1 h
    rfl
  | set | ret | store | jump | branch =>
    obtain rfl := Option.some.inj h
    rfl

/-- The tokens of a line whose values have no spaces, tabs and line feeds, literals apart. -/
def Token.AllUnspaced (tokens : List Token) : Prop :=
  ∀ token ∈ tokens, token.kind ≠ .string → token.kind ≠ .char → Unspaced token.value.toList

namespace Token.AllUnspaced

/-- A target holds no spaces. -/
theorem target? {tokens rest : List Token} {name : String} (h : AllUnspaced tokens)
    (hread : Token.target? tokens = some (name, rest)) :
    Unspaced name.toList ∧ AllUnspaced rest := by
  cases tokens with
  | nil => cases hread
  | cons first behind =>
    obtain ⟨hfirst, hbehind⟩ := List.forall_mem_cons.1 h
    rw [Token.target?] at hread
    split at hread
    · next hkind =>
      obtain ⟨rfl, rfl⟩ := Prod.mk.inj (Option.some.inj hread)
      refine ⟨hfirst ?_ ?_, hbehind⟩ <;>
        · intro hliteral
          simp [hliteral] at hkind
    · cases hread

/-- The name of an operand holds no spaces. -/
theorem operand {globals : List (String × Literal)} {tokens rest : List Token} {operand : Operand}
    (h : AllUnspaced tokens) (hread : Operand.ofTokens? globals tokens = some (operand, rest)) :
    (∀ name ∈ operand.name?, Unspaced name.toList) ∧ AllUnspaced rest := by
  cases tokens with
  | nil => cases hread
  | cons first behind =>
    obtain ⟨hfirst, hbehind⟩ := List.forall_mem_cons.1 h
    rw [Operand.ofTokens?.eq_def] at hread
    dsimp only at hread
    split at hread
    · next hregister =>
      split at hread
      · next type others =>
        obtain ⟨rfl, rfl⟩ := Prod.mk.inj (Option.some.inj hread)
        refine ⟨fun name hname => ?_, (List.forall_mem_cons.1 hbehind).2⟩
        obtain rfl := Option.some.inj hname
        exact hfirst (by simp [hregister]) (by simp [hregister])
      · cases hread
    split at hread
    · next hglobal =>
      obtain ⟨literal, -, hequal⟩ := Option.map_eq_some_iff.1 hread
      obtain ⟨rfl, rfl⟩ := Prod.mk.inj hequal
      refine ⟨fun name hname => ?_, hbehind⟩
      obtain rfl := Option.some.inj hname
      exact hfirst (by simp [hglobal]) (by simp [hglobal])
    split at hread
    · split at hread
      · obtain ⟨literal, -, hequal⟩ := Option.map_eq_some_iff.1 hread
        obtain ⟨rfl, rfl⟩ := Prod.mk.inj hequal
        obtain ⟨-, hrest⟩ := List.forall_mem_cons.1 (List.forall_mem_cons.1 hbehind).2
        exact ⟨fun name hname => absurd hname (Option.not_mem_none name), hrest⟩
      · cases hread
    · cases hread

/-- The names in a jump hold no spaces. -/
theorem jumpNames {globals : List (String × Literal)} {tokens : List Token}
    {statement : Statement String} (h : AllUnspaced tokens)
    (hread : Statement.ofLine? globals tokens = some statement) :
    ∀ name ∈ statement.jumpNames, Unspaced name.toList := by
  -- only a jump and a branch have targets; every other form is closed by this
  have hother : statement.jumpNames = [] →
      ∀ name ∈ statement.jumpNames, Unspaced name.toList := by
    intro hnone name hmem
    rw [hnone] at hmem
    exact absurd hmem List.not_mem_nil
  rw [Statement.ofLine?] at hread
  split at hread
  case h_2 => cases hread
  next found hfound =>
  obtain rfl := Option.some.inj hread
  cases tokens with
  | nil => cases hfound
  | cons first behind =>
    have hbehind : AllUnspaced behind := (List.forall_mem_cons.1 h).2
    rw [Statement.ofTokens?.eq_def] at hfound
    dsimp only at hfound
    split at hfound
    · split at hfound
      · obtain ⟨rfl, -⟩ := Prod.mk.inj (Option.some.inj hfound)
        exact hother rfl
      · obtain ⟨operand, -, hequal⟩ := Option.map_eq_some_iff.1 hfound
        obtain ⟨rfl, -⟩ := Prod.mk.inj hequal
        exact hother rfl
    split at hfound
    · split at hfound
      · obtain ⟨rfl, -⟩ := Prod.mk.inj (Option.some.inj hfound)
        exact hother rfl
      · obtain ⟨operand, -, hequal⟩ := Option.map_eq_some_iff.1 hfound
        obtain ⟨rfl, -⟩ := Prod.mk.inj hequal
        exact hother rfl
    split at hfound
    · obtain ⟨⟨pointer, between⟩, -, hbound⟩ := Option.bind_eq_some_iff.1 hfound
      obtain ⟨⟨operand, last⟩, -, hequal⟩ := Option.bind_eq_some_iff.1 hbound
      obtain ⟨rfl, -⟩ := Prod.mk.inj (Option.some.inj hequal)
      exact hother rfl
    split at hfound
    · obtain ⟨⟨target, last⟩, htarget, hequal⟩ := Option.map_eq_some_iff.1 hfound
      obtain ⟨rfl, -⟩ := Prod.mk.inj hequal
      exact List.forall_mem_singleton.2 (hbehind.target? htarget).1
    split at hfound
    · obtain ⟨⟨condition, between⟩, hcondition, hbound⟩ := Option.bind_eq_some_iff.1 hfound
      obtain ⟨⟨whenTrue, further⟩, htrue, hbound⟩ := Option.bind_eq_some_iff.1 hbound
      obtain ⟨⟨whenFalse, last⟩, hfalse, hequal⟩ := Option.bind_eq_some_iff.1 hbound
      obtain ⟨rfl, -⟩ := Prod.mk.inj (Option.some.inj hequal)
      obtain ⟨hnamed, hbetween⟩ := hbehind.operand hcondition
      obtain ⟨hfirst, hfurther⟩ := hbetween.target? htrue
      obtain ⟨hsecond, -⟩ := hfurther.target? hfalse
      refine List.forall_mem_append.2 ⟨fun name hmem => hnamed name (by simpa using hmem), ?_⟩
      exact List.forall_mem_cons.2 ⟨hfirst, List.forall_mem_singleton.2 hsecond⟩
    · obtain ⟨producer, -, hequal⟩ := Option.map_eq_some_iff.1 hfound
      obtain ⟨rfl, -⟩ := Prod.mk.inj hequal
      exact hother rfl

end Token.AllUnspaced

/-! ## Jumps of programs -/

/-- The labels that an operation may go on at. -/
def Operation.targets : Operation → List String
  | .jump target => [target]
  | .branch _ whenTrue whenFalse => [whenTrue, whenFalse]
  | _ => []

/-- What a register is set to the result of has a result. -/
theorem Program.AsRead.isProducer_of_inner? {program : Program} (h : program.AsRead)
    {ref inner : InstructionRef} (hinner : program.inner? ref = some inner) :
    ∃ entry, program.instructions.get? inner = some entry ∧ entry.operation.isProducer := by
  obtain ⟨entry, -, hset⟩ := Option.bind_eq_some_iff.1 hinner
  rw [innerOf?.eq_def] at hset
  split at hset
  · next name value _ =>
    split at hset
    · next found hvalue =>
      obtain rfl := Option.some.inj hset
      obtain ⟨result, hresult, -, hproducer⟩ := h.values value _ hvalue
      exact ⟨result, hresult, hproducer⟩
    · cases hset
  · cases hset

namespace Reading

/-- Every jump of an accepted source is a statement in which no name has spaces, tabs or line
feeds. -/
theorem exists_jump {text : String} {program : Program} (h : (ofText text).result = .ok program)
    {ref : InstructionRef} {entry : Instruction}
    (hentry : program.instructions.get? ref = some entry) (hjump : entry.operation.targets ≠ []) :
    ∃ statement, program.OperationIs entry.operation statement ∧
      ∀ name ∈ statement.jumpNames, Unspaced name.toList := by
  obtain ⟨survey, position, layout, made, hsurvey, hdescribes⟩ := exists_survey_of_ok h
  have hmem : ref ∈ made.flatMap fun item => program.unfolded item.2 := by
    rw [← hdescribes.instructions.refs]
    exact Arena.mem_refs.2 ⟨entry, hentry⟩
  obtain ⟨⟨line, last⟩, hitem, hunfolded⟩ := List.mem_flatMap.1 hmem
  -- what a register is set to is no jump, so the jump is the instruction of the line
  obtain rfl : ref = last := by
    rcases List.mem_append.1 hunfolded with hinner | hlast
    · obtain ⟨found, hfound, hproducer⟩ :=
        hdescribes.read.toAsRead.isProducer_of_inner? (Option.mem_toList.1 hinner)
      obtain rfl := Option.some.inj (hentry.symm.trans hfound)
      cases hoperation : entry.operation <;> simp_all [Operation.targets, Operation.isProducer]
    · exact List.mem_singleton.1 hlast
  obtain ⟨statement, hmeans, found, hfound, his⟩ := hdescribes.instructions.lines _ hitem
  obtain rfl := Option.some.inj (hentry.symm.trans hfound)
  obtain ⟨written, hwritten, hresolve⟩ := Option.bind_eq_some_iff.1 hmeans
  refine ⟨statement, his, ?_⟩
  rw [Statement.jumpNames_resolve hresolve]
  have hline : line ∈ survey.lines := by
    rw [← hdescribes.follows.lines]
    exact List.mem_map_of_mem hitem
  obtain ⟨number, characters, hsource, hlex⟩ := Survey.exists_line_of_ofSource? hsurvey hline
  have hunspaced : Token.AllUnspaced line.tokens := fun token hmem hstring hchar =>
    (Token.writable_of_mem_ofLine (Source.undivided_ofText text characters hsource) hlex hmem
      hchar).unspaced hstring
  exact hunspaced.jumpNames hwritten

end Reading

end ChainIR
