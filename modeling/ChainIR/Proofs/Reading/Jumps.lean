import Mathlib
import ChainIR.Proofs.Reading.Derivation
import ChainIR.Proofs.Reading.Names
import ChainIR.Proofs.Reading.Written
import ChainIR.Proofs.Token.Target
import ChainIR.Proofs.Types.Words

/-! # Jumps that are read again

A jump is written with the bare names of its targets. A jump of an accepted source is read again
with its targets exactly if their names start with a letter, a digit, an underscore or a point, the
last one does not end with a carriage return, and there is no space in the type of the condition
(`Reading.jumpsTo_iff`). So a jump to the label without name is never read again.

* `Program.OperandIs.exists_tree`: an operand is read again from its words.
* `Program.Interned.jumpsTo_jump_iff`, `Program.Read.jumpsTo_branch_iff`: the two forms of jumps. -/

namespace ChainIR

/-! ## Operands that are read again -/

/-- An operand whose type is written without spaces, or not at all. -/
def Operand.InOneWord : Operand → Prop
  | .register _ type => ' ' ∉ type.toList
  | _ => True

namespace TypeTree

/-- The name of a type starts as a word. -/
theorem opensTarget_name (tree : TypeTree) : OpensTarget tree.name.toList := by
  obtain ⟨first, rest, hname, hletter⟩ := tree.exists_head_name
  exact ⟨first, by simp [hname], .inr (.inr (.inl hletter))⟩

/-- There is no tab and no line feed in the name of a type. -/
theorem mem_name (tree : TypeTree) {c : Char} (hc : c ∈ tree.name.toList) : c ≠ '\t' ∧ c ≠ '\n' :=
  ⟨ne_of_mem_of_not_mem hc tree.listed_name.tab, ne_of_mem_of_not_mem hc tree.listed_name.feed⟩

/-- The name of a type without spaces is a word. -/
theorem intact_name {tree : TypeTree} (hspace : ' ' ∉ tree.name.toList) :
    (Word.bare tree.name).Intact :=
  tree.opensTarget_name.intact fun _ hc => ⟨ne_of_mem_of_not_mem hc hspace, tree.mem_name hc⟩

/-- The first word of a name with spaces. -/
theorem exists_intact_word {tree : TypeTree} (h : ' ' ∈ tree.name.toList) :
    ∃ (word : String) (rest : List Char), tree.name.toList = word.toList ++ ' ' :: rest ∧
      (Word.bare word).Intact ∧ OpensTarget word.toList ∧ word.toList.getLast? = some ',' := by
  obtain ⟨first, behind, rest, hname, hletter, hspace, hcomma⟩ := exists_first_word h
  have hword : (String.ofList (first :: behind)).toList = first :: behind := String.toList_ofList
  rw [← hword] at hname hspace hcomma
  have hopens : OpensTarget (String.ofList (first :: behind)).toList :=
    ⟨first, by simp, .inr (.inr (.inl hletter))⟩
  refine ⟨_, rest, hname, hopens.intact fun c hc => ?_, hopens, hcomma⟩
  exact ⟨ne_of_mem_of_not_mem hc hspace, tree.mem_name (hname ▸ List.mem_append_left _ hc)⟩

end TypeTree

namespace Program

variable {program : Program} {value : ValueRef} {operand : Operand}

/-- The words of an operand stay whole. -/
theorem OperandIs.intact_words (h : program.OperandIs value operand) (hinterned : program.Interned)
    (hname : ∀ name ∈ operand.name?, Unspaced name.toList) (hword : operand.InOneWord) :
    ∀ word ∈ operand.words, word.Intact := by
  cases operand with
  | register name type =>
    obtain ⟨ref, -, htype⟩ := h
    obtain ⟨tree, rfl⟩ := hinterned.exists_tree (.inl ⟨ref, htype⟩)
    exact List.forall_mem_cons.2 ⟨Word.intact_marked (hname name rfl) (.inl rfl),
      List.forall_mem_singleton.2 (TypeTree.intact_name hword)⟩
  | global name type =>
    exact List.forall_mem_singleton.2 (Word.intact_marked (hname name rfl) (.inr rfl))
  | constant literal => exact fun word hmem => (literal.valid_words word hmem).intact

/-- The name of a type is read as the type. -/
theorem Interned.typeByName_token (hinterned : program.Interned) {ref : TypeRef} {type : String}
    (htype : program.typeName ref = .ok type) (line : Nat) :
    Edit.typeByName ((Word.bare type).token line).value program =
      .ok (.ok (some ref), program) := by
  obtain ⟨tree, rfl⟩ := hinterned.exists_tree (.inl ⟨ref, htype⟩)
  rw [tree.opensTarget_name.value_token]
  exact hinterned.typeByName_typeName htype

/-- The words of an operand are read as an operand. -/
theorem OperandIs.exists_tree (h : program.OperandIs value operand) (hread : program.Read)
    (line : Nat) : ∃ (tree : OperandTree) (ref : ValueRef) (type : TypeRef) (after : Program),
      tree.tokens = Word.tokens line operand.words ∧ tree.Denotes program ref type after := by
  have hinterned := hread.requested.interned
  cases operand with
  | register name type =>
    obtain ⟨typeRef, -, htype⟩ := h
    obtain ⟨ref, after, hadded, -⟩ := Edit.addValue_yields program (.register name typeRef)
    refine ⟨.register ⟨⟨.register, name, line⟩, rfl⟩ ((Word.bare type).token line), ref, typeRef,
      after, ?_, .register (hinterned.typeByName_token htype line) hadded⟩
    simp [OperandTree.tokens, Operand.words]
  | global name type =>
    obtain ⟨_, _, _, _, _, hvalue⟩ := h
    -- reading makes no value of a global itself
    obtain ⟨typeRef, hpointer⟩ : ∃ typeRef,
        program.values.get? value = some (.globalPointer name typeRef) := by
      rcases hvalue with hpointer | hglobal
      · exact ⟨_, hpointer⟩
      · exact (hread.values value _ hglobal).elim
    obtain ⟨global, entry, hnamed, hentry, -⟩ := hread.values value _ hpointer
    obtain ⟨ref, after, hadded, -⟩ :=
      Edit.addValue_yields program (.globalPointer name entry.initial.type)
    refine ⟨.global ⟨⟨.global, name, line⟩, rfl⟩, ref, _, after, ?_,
      .global hnamed hentry hadded⟩
    simp [OperandTree.tokens, Operand.words]
  | constant literal =>
    obtain ⟨typeRef, -, htype⟩ := h
    obtain ⟨-, hliteral⟩ := LineReader.ofText_word typeRef literal line
    have hconstant : program.constantOfText typeRef (literal.word.token line).value =
        .ok (.ok ⟨typeRef, literal⟩) := by
      rw [constantOfText, htype, ← hliteral]
      rfl
    obtain ⟨ref, after, hadded, -⟩ := Edit.addValue_yields program (.constant ⟨typeRef, literal⟩)
    refine ⟨.constant ⟨⟨.identifier, "const", line⟩, rfl⟩ ((Word.bare literal.typeName).token line)
      (literal.word.token line), ref, typeRef, after, ?_,
      .constant (hinterned.typeByName_token htype line) hconstant hadded⟩
    have hkeyword : (Word.bare "const").token line = ⟨.identifier, "const", line⟩ :=
      Word.token_keyword (by decide) line
    simp [OperandTree.tokens, Operand.words, Literal.words, hkeyword]

end Program

/-! ## Lines that are jumps -/

/-- What a jump denotes tells its line. -/
theorem LineTree.Denotes.jump_of_targets {program after : Program} {line : LineTree}
    {operation : Operation} (h : line.Denotes program operation after) {name : String}
    (htargets : operation.targets = [name]) : ∃ (keyword : Token.Keyword "jmp")
      (label : Token.Target), line = .jump keyword label ∧ label.1.value = name := by
  cases h with
  | jump => exact ⟨_, _, rfl, (List.cons.inj htargets).1⟩
  | branch => cases htargets
  | produce hproducer => cases hproducer <;> cases htargets
  | _ => cases htargets

/-- What a branch denotes tells its line. -/
theorem LineTree.Denotes.branch_of_targets {program after : Program} {line : LineTree}
    {operation : Operation} (h : line.Denotes program operation after) {whenTrue whenFalse : String}
    (htargets : operation.targets = [whenTrue, whenFalse]) :
    ∃ (keyword : Token.Keyword "cjmp") (condition : OperandTree) (label other : Token.Target),
      line = .branch keyword condition label other ∧ label.1.value = whenTrue ∧
        other.1.value = whenFalse ∧ ∃ value type, condition.Denotes program value type after := by
  cases h with
  | branch hcondition =>
    obtain ⟨htrue, hrest⟩ := List.cons.inj htargets
    exact ⟨_, _, _, _, rfl, htrue, (List.cons.inj hrest).1, _, _, hcondition⟩
  | jump => cases htargets
  | produce hproducer => cases hproducer <;> cases htargets
  | _ => cases htargets

namespace Program

variable {program : Program}

/-- A line that is read in a program as a jump to the given labels. -/
def JumpsTo (program : Program) (number : Nat) (line : String) (targets : List String) : Prop :=
  ∃ tokens ref after entry, Token.ofLine number line.toList = .ok tokens ∧
    LineReader.instructionLine ⟨number, tokens, program⟩ = .ok (ref, after) ∧
    after.program.instructions.get? ref = some entry ∧ entry.operation.targets = targets

/-- A line is read as a jump exactly if its tokens have a derivation that denotes the jump. -/
theorem Interned.jumpsTo_iff_denotes (h : program.Interned) {number : Nat} {line : String}
    {targets : List String} : program.JumpsTo number line targets ↔
      ∃ (tree : LineTree) (operation : Operation) (operands : Program),
        Token.ofLine number line.toList = .ok tree.tokens ∧
          tree.Denotes program operation operands ∧ operation.targets = targets := by
  constructor
  · rintro ⟨tokens, ref, after, entry, hlex, hrun, hentry, rfl⟩
    obtain ⟨hend, tree, operation, operands, htokens, hdenotes, hadded⟩ :=
      LineReader.instructionLine_denotes h ref after hrun
    obtain ⟨ref', after', hadded', -, hnew⟩ := Edit.addInstruction_yields operands operation
    obtain ⟨rfl, rfl⟩ := Prod.mk.inj (Except.ok.inj (hadded.symm.trans hadded'))
    obtain rfl := Option.some.inj (hentry.symm.trans hnew)
    refine ⟨tree, operation, operands, ?_, hdenotes, rfl⟩
    rw [hlex, show tokens = tree.tokens ++ after.tokens from htokens, hend, List.append_nil]
  · rintro ⟨tree, operation, operands, hlex, hdenotes, rfl⟩
    obtain ⟨ref, after, hrun, -, hnew⟩ :=
      LineReader.exists_of_denotes h number (Token.kind_ne_eof_of_ofLine hlex) hdenotes
    exact ⟨_, ref, _, _, hlex, hrun, hnew, rfl⟩

/-- A jump is read again exactly if its target is read as one. -/
theorem Interned.jumpsTo_jump_iff (h : program.Interned) {name : String}
    (hname : Unspaced name.toList) (number : Nat) :
    program.JumpsTo number ("\t" ++ spaced ((Statement.jump name).words.map Word.text)) [name] ↔
      OpensTarget name.toList ∧ name.toList.getLast? ≠ some '\r' := by
  -- the keyword is read as it is written, so only what is scanned of the name decides
  have hintact : ∀ word ∈ [Word.bare "jmp"], word.Intact :=
    List.forall_mem_singleton.2 (Word.valid_bare (by decide)).intact
  have hlex : Token.ofLine number
      ("\t" ++ spaced ((Statement.jump name).words.map Word.text)).toList =
        (Token.scan number (Token.withoutLineEnd name.toList)).map
          (Word.tokens number [.bare "jmp"] ++ ·) := by
    have hwords : (Statement.jump name).words = [Word.bare "jmp"] ++ [Word.bare name] := rfl
    rw [hwords, Word.toList_indented_concat]
    exact Token.ofLine_spacedOut hintact (by simp) (fun c hc => (hname c hc).2) number
  have hkeyword : (Word.bare "jmp").token number = ⟨.identifier, "jmp", number⟩ :=
    Word.token_keyword (by decide) number
  rw [h.jumpsTo_iff_denotes, hlex, ← Token.scan_target_iff hname number]
  constructor
  · rintro ⟨tree, operation, operands, hscan, hdenotes, htargets⟩
    obtain ⟨keyword, label, rfl, rfl⟩ := hdenotes.jump_of_targets htargets
    obtain ⟨others, hothers, hequal⟩ := Token.exists_of_map_append hscan
    obtain ⟨-, rfl⟩ := List.cons.inj hequal
    exact ⟨label, hothers, (String.ofList_toList).symm⟩
  · rintro ⟨label, hscan, hvalue⟩
    rw [String.ofList_toList] at hvalue
    refine ⟨.jump ⟨⟨.identifier, "jmp", number⟩, rfl⟩ label, _, program, ?_, .jump, ?_⟩
    · rw [hscan, Word.tokens_cons, hkeyword]
      rfl
    · rw [Operation.targets, hvalue]

/-- The line of a branch, with its condition in front. -/
theorem toList_branch (condition : Operand) (whenTrue whenFalse : String) :
    ("\t" ++ spaced ((Statement.branch condition whenTrue whenFalse).words.map Word.text)).toList =
      '\t' :: (Word.spacedOut (.bare "cjmp" :: condition.words) ++
        (whenTrue.toList ++ ' ' :: whenFalse.toList)) := by
  have hwords : (Statement.branch condition whenTrue whenFalse).words =
      ((.bare "cjmp" :: condition.words) ++ [.bare whenTrue]) ++ [.bare whenFalse] := by
    simp [Statement.words]
  rw [hwords, Word.toList_indented_concat, Word.spacedOut_append, Word.spacedOut_cons (.bare whenTrue)]
  simp [Word.text]

/-- A branch with a condition in one word is read again exactly if its targets are read as such. -/
theorem Read.jumpsTo_branch_iff (h : program.Read) {value : ValueRef} {condition : Operand}
    (hcondition : program.OperandIs value condition)
    (hnames : ∀ name ∈ condition.name?, Unspaced name.toList) (hword : condition.InOneWord)
    {whenTrue whenFalse : String} (htrue : Unspaced whenTrue.toList)
    (hfalse : Unspaced whenFalse.toList) (number : Nat) :
    program.JumpsTo number
        ("\t" ++ spaced ((Statement.branch condition whenTrue whenFalse).words.map Word.text))
        [whenTrue, whenFalse] ↔
      OpensTarget whenTrue.toList ∧ OpensTarget whenFalse.toList ∧
        whenFalse.toList.getLast? ≠ some '\r' := by
  have hinterned := h.requested.interned
  have hintact : ∀ word ∈ Word.bare "cjmp" :: condition.words, word.Intact :=
    List.forall_mem_cons.2 ⟨(Word.valid_bare (by decide)).intact,
      hcondition.intact_words hinterned hnames hword⟩
  have hrest : ∀ c ∈ whenTrue.toList ++ ' ' :: whenFalse.toList, c ≠ '\t' ∧ c ≠ '\n' :=
    List.forall_mem_append.2 ⟨fun c hc => (htrue c hc).2,
      List.forall_mem_cons.2 ⟨by decide, fun c hc => (hfalse c hc).2⟩⟩
  have hkeyword : (Word.bare "cjmp").token number = ⟨.identifier, "cjmp", number⟩ :=
    Word.token_keyword (by decide) number
  -- the words of the condition are its tokens, which denote an operand again
  obtain ⟨tree, ref, type, after, htokens, hdenotes⟩ := hcondition.exists_tree h number
  rw [hinterned.jumpsTo_iff_denotes, toList_branch,
    Token.ofLine_spacedOut hintact (List.cons_ne_nil _ _) hrest,
    ← Token.scan_targets_iff htrue hfalse number]
  constructor
  · rintro ⟨line, operation, operands, hscan, hline, htargets⟩
    obtain ⟨keyword, other, first, second, rfl, rfl, rfl, -⟩ := hline.branch_of_targets htargets
    obtain ⟨others, hothers, hequal⟩ := Token.exists_of_map_append hscan
    -- the condition goes as far as its words, so the targets are what stands behind them
    have hsame : other.tokens ++ [first.1, second.1] = tree.tokens ++ others := by
      rw [htokens]
      exact (List.cons.inj hequal).2
    obtain ⟨-, rfl⟩ := OperandTree.eq_of_tokens_append hsame
    exact ⟨first, second, hothers, (String.ofList_toList).symm, (String.ofList_toList).symm⟩
  · rintro ⟨first, second, hscan, hfirst, hsecond⟩
    rw [String.ofList_toList] at hfirst hsecond
    refine ⟨.branch ⟨⟨.identifier, "cjmp", number⟩, rfl⟩ tree first second, _, after, ?_,
      .branch hdenotes, ?_⟩
    · rw [hscan, List.map_cons, hkeyword, LineTree.tokens, htokens]
      rfl
    · rw [Operation.targets, hfirst, hsecond]

/-- A branch is not read again if there is a space in the type of its condition. -/
theorem Interned.not_jumpsTo_branch (h : program.Interned) {value : ValueRef} {condition : Operand}
    (hcondition : program.OperandIs value condition)
    (hnames : ∀ name ∈ condition.name?, Unspaced name.toList) (hword : ¬ condition.InOneWord)
    {whenTrue whenFalse : String} (htrue : Unspaced whenTrue.toList)
    (hfalse : Unspaced whenFalse.toList) (number : Nat) :
    ¬ program.JumpsTo number
        ("\t" ++ spaced ((Statement.branch condition whenTrue whenFalse).words.map Word.text))
        [whenTrue, whenFalse] := by
  cases condition with
  | global | constant => exact absurd trivial hword
  | register name type =>
    obtain ⟨typeRef, -, htype⟩ := hcondition
    obtain ⟨tree, rfl⟩ := h.exists_tree (.inl ⟨typeRef, htype⟩)
    obtain ⟨word, rest, htree, hintactWord, hopens, hcomma⟩ :=
      TypeTree.exists_intact_word (not_not.1 hword)
    have hintact : ∀ word' ∈ [.bare "cjmp", .bare ("%" ++ name), Word.bare word], word'.Intact := by
      simp only [List.forall_mem_cons]
      exact ⟨(Word.valid_bare (by decide)).intact, Word.intact_marked (hnames name rfl) (.inl rfl),
        hintactWord, fun _ hmem => absurd hmem List.not_mem_nil⟩
    have hline : Word.spacedOut (.bare "cjmp" :: (Operand.register name tree.name).words) ++
        (whenTrue.toList ++ ' ' :: whenFalse.toList) =
          Word.spacedOut [.bare "cjmp", .bare ("%" ++ name), .bare word] ++
            (rest ++ ' ' :: (whenTrue.toList ++ ' ' :: whenFalse.toList)) := by
      simp [Word.spacedOut, Operand.words, Word.text, htree]
    have hrest : ∀ c ∈ rest ++ ' ' :: (whenTrue.toList ++ ' ' :: whenFalse.toList),
        c ≠ '\t' ∧ c ≠ '\n' := by
      simp only [List.forall_mem_append, List.forall_mem_cons]
      exact ⟨fun c hc => tree.mem_name (htree ▸ List.mem_append_right _ (.tail _ hc)), by decide,
        fun c hc => (htrue c hc).2, by decide, fun c hc => (hfalse c hc).2⟩
    rw [h.jumpsTo_iff_denotes, toList_branch, hline,
      Token.ofLine_spacedOut hintact (List.cons_ne_nil _ _) hrest]
    rintro ⟨tree, operation, operands, hscan, hdenotes, htargets⟩
    obtain ⟨keyword, condition, first, second, rfl, -, -, value, type, hdenotes⟩ :=
      hdenotes.branch_of_targets htargets
    obtain ⟨others, -, hequal⟩ := Token.exists_of_map_append hscan
    obtain ⟨-, htokens⟩ := List.cons.inj hequal
    -- the type of the register is looked up by its first word
    cases hdenotes with
    | register hlookup _ =>
      obtain ⟨-, hrest⟩ := List.cons.inj htokens
      rw [(List.cons.inj hrest).1, hopens.value_token] at hlookup
      exact h.typeByName_comma hcomma _ hlookup
    | @global label =>
      have hkind := label.2
      rw [(List.cons.inj htokens).1, Word.token_register] at hkind
      cases hkind
    | @constant keyword =>
      have hkeyword := keyword.2
      rw [(List.cons.inj htokens).1, Word.token_register] at hkeyword
      cases hkeyword

/-- An operation that goes on at labels is a jump or a branch. -/
theorem OperationIs.jump_or_branch {operation : Operation} {statement : Statement Callee}
    (h : program.OperationIs operation statement) (hjump : operation.targets ≠ []) :
    (∃ name, operation = .jump name ∧ statement = .jump name) ∨
      ∃ value condition whenTrue whenFalse, operation = .branch value whenTrue whenFalse ∧
        statement = .branch condition whenTrue whenFalse ∧ program.OperandIs value condition := by
  cases statement with
  | produce producer => -- no other form has targets
    cases producer with
    | call | alloc | load =>
      obtain ⟨_, rfl, -⟩ := h
      exact absurd rfl hjump
  | assign name producer =>
    obtain ⟨_, _, _, rfl, -⟩ := h
    exact absurd rfl hjump
  | set name operand =>
    obtain ⟨_, rfl, -⟩ := h
    exact absurd rfl hjump
  | ret operand =>
    cases operand with
    | none =>
      rw [show operation = .ret none from h] at hjump
      exact absurd rfl hjump
    | some operand =>
      obtain ⟨_, rfl, -⟩ := h
      exact absurd rfl hjump
  | store pointer operand =>
    obtain ⟨_, _, rfl, -⟩ := h
    exact absurd rfl hjump
  | jump name => exact .inl ⟨name, h, rfl⟩
  | branch condition whenTrue whenFalse =>
    obtain ⟨value, hoperation, hcondition⟩ := h
    exact .inr ⟨value, condition, whenTrue, whenFalse, hoperation, rfl, hcondition⟩

/-- A value whose type is written without spaces, or not at all. -/
def InOneWord (program : Program) (value : ValueRef) : Prop :=
  ∀ name type typeName, program.values.get? value = some (.register name type) →
    program.typeName type = .ok typeName → ' ' ∉ typeName.toList

/-- An operand is in one word as its value is. -/
theorem OperandIs.inOneWord_iff {value : ValueRef} {operand : Operand}
    (h : program.OperandIs value operand) : operand.InOneWord ↔ program.InOneWord value := by
  cases operand with
  | register name type =>
    obtain ⟨typeRef, hvalue, htype⟩ := h
    constructor
    · intro hword name' typeRef' type' hvalue' htype'
      obtain ⟨rfl, rfl⟩ := Value.register.inj (Option.some.inj (hvalue.symm.trans hvalue'))
      obtain rfl := Except.ok.inj (htype.symm.trans htype')
      exact hword
    · exact fun hword => hword name typeRef type hvalue htype
  | global name type =>
    obtain ⟨_, _, _, _, _, hvalue⟩ := h
    refine iff_of_true trivial fun name' typeRef' type' hvalue' => ?_
    rcases hvalue with hvalue | hvalue <;> rw [hvalue] at hvalue' <;> cases hvalue'
  | constant literal =>
    obtain ⟨typeRef, hvalue, -⟩ := h
    refine iff_of_true trivial fun name' typeRef' type' hvalue' => ?_
    rw [hvalue] at hvalue'
    cases hvalue'

end Program

/-- The condition that an operation depends on. -/
def Operation.condition? : Operation → Option ValueRef
  | .branch condition _ _ => some condition
  | _ => none

namespace Reading

/-- **Jumps are read again by the spelling of their targets.** Every jump of an accepted source is
written. The line that it is written on, behind a tab, is read again in the program as a jump with
the same targets exactly if the name of each target starts with a letter, a digit, an underscore or
a point, the name of the last one does not end with a carriage return, and the type of the
condition, if it is a register, has a name without spaces. -/
theorem jumpsTo_iff {text : String} {program : Program} (h : (ofText text).result = .ok program)
    {ref : InstructionRef} {entry : Instruction}
    (hentry : program.instructions.get? ref = some entry) (hjump : entry.operation.targets ≠ [])
    (number : Nat) : ∃ line, program.instructionText ref = .ok line ∧
      (program.JumpsTo number ("\t" ++ line) entry.operation.targets ↔
        (∀ target ∈ entry.operation.targets, OpensTarget target.toList) ∧
          (∀ target ∈ entry.operation.targets.getLast?, target.toList.getLast? ≠ some '\r') ∧
            ∀ condition ∈ entry.operation.condition?, program.InOneWord condition) := by
  obtain ⟨statement, his, hnames⟩ := exists_jump h hentry hjump
  obtain ⟨survey, position, layout, made, -, hdescribes⟩ := exists_survey_of_ok h
  have hread := hdescribes.read
  refine ⟨_, Program.StatementIs.text_eq ⟨entry, hentry, his⟩, ?_⟩
  rcases his.jump_or_branch hjump with ⟨name, hoperation, rfl⟩ |
    ⟨value, condition, whenTrue, whenFalse, hoperation, rfl, hcondition⟩
  · rw [hoperation]
    have hname := hnames name (.head _)
    refine (hread.requested.interned.jumpsTo_jump_iff hname number).trans ?_
    simp [Operation.targets, Operation.condition?]
  · rw [hoperation]
    obtain ⟨hlabel, htargets⟩ := List.forall_mem_append.1 hnames
    have hnamed : ∀ name ∈ condition.name?, Unspaced name.toList :=
      fun name hname => hlabel name (Option.mem_toList.2 hname)
    have htrue := htargets whenTrue (.head _)
    have hfalse := htargets whenFalse (.tail _ (.head _))
    -- a condition in several words spoils the line whatever the targets are
    by_cases hword : condition.InOneWord
    · refine (hread.jumpsTo_branch_iff hcondition hnamed hword htrue hfalse number).trans ?_
      rw [hcondition.inOneWord_iff] at hword
      simp [Operation.targets, Operation.condition?, hword, and_assoc]
    · refine iff_of_false (hread.requested.interned.not_jumpsTo_branch hcondition hnamed hword
        htrue hfalse number) ?_
      rw [hcondition.inOneWord_iff] at hword
      exact fun hreads => hword (hreads.2.2 value rfl)

/-- A source with a jump to the label without name, and with a branch to other labels. -/
def unnamedSource : String :=
  "def void f\n\tjmp @a\n@a\n\tcjmp const num 1 a 2\n@2\n\tjmp @\nenddef\n"

/-- The branch is read again with its targets, but the jump to the label without name is not read
again. -/
theorem jumpsTo_unnamed : ∃ program line other, (ofText unnamedSource).result = .ok program ∧
    program.instructionText ⟨1⟩ = .ok line ∧ program.JumpsTo 1 ("\t" ++ line) ["a", "2"] ∧
    program.instructionText ⟨2⟩ = .ok other ∧ ¬ program.JumpsTo 1 ("\t" ++ other) [""] := by
  have haccepted : accepts unnamedSource fun program =>
      (program.instructions.get? ⟨1⟩).any (fun entry => entry.operation = .branch ⟨0⟩ "a" "2") &&
        (program.values.get? ⟨0⟩).any (fun value => value matches .constant _) &&
        (program.instructions.get? ⟨2⟩).any (fun entry => entry.operation = .jump "") := by
    decide +kernel
  obtain ⟨program, hread, htest⟩ := exists_of_accepts haccepted
  simp only [Bool.and_eq_true, Option.any_eq_true, decide_eq_true_eq] at htest
  obtain ⟨⟨⟨branch, hbranch, hcondition⟩, value, hvalue, hconstant⟩, jump, hjump, htarget⟩ := htest
  obtain ⟨line, hline, hreads⟩ := jumpsTo_iff hread hbranch (by simp [hcondition, Operation.targets]) 1
  obtain ⟨other, hother, hlost⟩ := jumpsTo_iff hread hjump (by simp [htarget, Operation.targets]) 1
  rw [hcondition] at hreads
  rw [htarget] at hlost
  refine ⟨program, line, other, hread, hline, hreads.2 ⟨by decide, by decide, ?_⟩, hother,
    fun hjumps => ?_⟩
  · -- the condition is a constant and no register
    intro condition hmem name type typeName hregister
    obtain rfl : ⟨0⟩ = condition := Option.some.inj hmem
    rw [hvalue] at hregister
    obtain rfl := Option.some.inj hregister
    cases hconstant
  · exact absurd ((hlost.1 hjumps).1 "" (.head _)) (by decide)

end Reading

end ChainIR
