import Mathlib
import ChainIR.Proofs.Reading.Text

/-! # What a text tells of its outline

The text of an outline that can be read tells everything of it but the names that have been made
up for parameters: its lines can be told apart, a line tells its words, and words tell what they
are the words of (`Outline.Readable.named_eq_of_text_eq`). -/

namespace ChainIR

/-! ## Cutting lists -/

section Cut

variable {α : Type} (property : α → Bool)

/-- A list falls apart in one way into elements with a property and a rest that begins with
another element. -/
theorem cut_unique {front front' back back' : List α} (hfront : ∀ item ∈ front, property item)
    (hfront' : ∀ item ∈ front', property item) (hback : ∀ item ∈ back.head?, property item = false)
    (hback' : ∀ item ∈ back'.head?, property item = false)
    (h : front ++ back = front' ++ back') : front = front' ∧ back = back' := by
  induction front generalizing front' with
  | nil =>
    cases front' with
    | nil => exact ⟨rfl, h⟩
    | cons item front' =>
      rw [List.nil_append] at h
      -- the rest of one would begin with an element in the front of the other
      have hfalse := hback item (by rw [h]; rfl)
      rw [hfront' item List.mem_cons_self] at hfalse
      exact absurd hfalse (by decide)
  | cons item front ih =>
    obtain ⟨hitem, hfront⟩ := List.forall_mem_cons.1 hfront
    cases front' with
    | nil =>
      rw [List.nil_append] at h
      have hfalse := hback' item (by rw [← h]; rfl)
      rw [hitem] at hfalse
      exact absurd hfalse (by decide)
    | cons item' front' =>
      obtain ⟨hsame, hrest⟩ := List.cons.inj h
      obtain ⟨hfronts, hbacks⟩ := ih hfront (List.forall_mem_cons.1 hfront').2 hrest
      exact ⟨by rw [hsame, hfronts], hbacks⟩

/-- A list of images tells the list, if an image tells its element. -/
theorem eq_of_map_eq {α β : Type} {image : α → β} {good : α → Prop}
    (hinjective : ∀ left right, good left → good right → image left = image right → left = right)
    {items items' : List α} (hitems : ∀ item ∈ items, good item)
    (hitems' : ∀ item ∈ items', good item) (h : items.map image = items'.map image) :
    items = items' := by
  induction items generalizing items' with
  | nil => exact (List.map_eq_nil_iff.1 h.symm).symm
  | cons item items ih =>
    obtain ⟨hitem, hitems⟩ := List.forall_mem_cons.1 hitems
    obtain ⟨item', rest, rfl, himage, hrest⟩ := List.map_eq_cons_iff.1 h.symm
    obtain ⟨hitem', hitems'⟩ := List.forall_mem_cons.1 hitems'
    rw [hinjective item item' hitem hitem' himage.symm, ih hitems hitems' hrest.symm]

end Cut

/-! ## Words -/

namespace Word

/-- The word that a token stands for. -/
def ofToken (token : Token) : Word :=
  match token.kind with
  | .register => bare ("%" ++ token.value)
  | .block => bare ("@" ++ token.value)
  | .global => bare ("$" ++ token.value)
  | .string => quoted token.value
  | _ => bare token.value

/-- The token of a word tells the word. -/
theorem ofToken_token {word : Word} (h : word.Valid) (line : Nat) :
    ofToken (word.token line) = word := by
  cases word with
  | quoted text => rfl
  | bare text =>
    obtain ⟨c, rest, htext, -⟩ := exists_toList_eq_cons h.2
    have hmarked : ∀ mark : String, mark.toList = [c] → mark ++ String.ofList rest = text := by
      intro mark hmark
      rw [← String.toList_inj, String.toList_append, hmark, String.toList_ofList, htext]
      rfl
    have hvalue : String.ofList (c :: rest) = text := by rw [← htext, String.ofList_toList]
    rw [token, htext, Token.ofWord?]
    split_ifs with hregister hblock hglobal
    · exact congrArg bare (hmarked "%" (by rw [hregister]; rfl))
    · exact congrArg bare (hmarked "@" (by rw [hblock]; rfl))
    · exact congrArg bare (hmarked "$" (by rw [hglobal]; rfl))
    all_goals exact congrArg bare hvalue

/-- What a word at the beginning of an instruction or an operand says of it: its mark, or else the
whole word. -/
def key : Word → String
  | bare text =>
    match text.toList.head? with
    | some '%' => "%"
    | some '$' => "$"
    | _ => text
  | quoted _ => "\""

@[simp] theorem key_register (name : String) : (bare ("%" ++ name)).key = "%" := by simp [key]

@[simp] theorem key_global (name : String) : (bare ("$" ++ name)).key = "$" := by simp [key]

end Word

/-! ## Statements -/

namespace Literal

/-- The words of a literal tell the literal. -/
theorem words_injective {left right : Literal} (h : left.words = right.words) : left = right := by
  simp only [words, List.cons.injEq, Word.bare.injEq, and_true, true_and] at h
  have hleft := (LineReader.ofText_word ⟨0⟩ left 0).2
  have hright := (LineReader.ofText_word ⟨0⟩ right 0).2
  rw [h.1, h.2, hright] at hleft
  exact (Constant.mk.inj (Except.ok.inj hleft)).2.symm

end Literal

namespace Operand

/-- The key of the words of an operand. -/
def key : Operand → String
  | register _ _ => "%"
  | global _ _ => "$"
  | constant _ => "const"

/-- The first word of an operand tells which form it has. -/
theorem key_words (operand : Operand) (rest : List Word) :
    (operand.words ++ rest).head?.map Word.key = some operand.key := by
  cases operand <;> simp [words, Literal.words, key, Word.key]

variable {globals : List (String × Literal)} (hnodup : (globals.map Prod.fst).Nodup)
  {left right : Operand} (hleft : left.Known globals) (hright : right.Known globals)
include hnodup hleft hright

/-- The words of an operand tell it from what follows. -/
theorem words_append_injective {rest rest' : List Word}
    (h : left.words ++ rest = right.words ++ rest') : left = right ∧ rest = rest' := by
  have hkey : left.key = right.key := by
    have hkeys := key_words left rest
    rwa [h, key_words, eq_comm, Option.some.injEq] at hkeys
  cases left with
  | register name type =>
    cases right with
    | register name' type' => simpa [words, and_assoc] using h
    | global | constant => exact absurd hkey (by simp [key])
  | global name type =>
    cases right with
    | global name' type' =>
      obtain ⟨rfl, hrest⟩ : name = name' ∧ rest = rest' := by simpa [words] using h
      obtain ⟨literal, hmem, rfl⟩ := hleft
      obtain ⟨literal', hmem', rfl⟩ := hright
      -- a name is bound to one literal, so the pointers are of one type
      have hsame : (name, literal) = (name, literal') :=
        List.inj_on_of_nodup_map hnodup hmem hmem' rfl
      rw [(Prod.mk.inj hsame).2]
      exact ⟨rfl, hrest⟩
    | register | constant => exact absurd hkey (by simp [key])
  | constant literal =>
    cases right with
    | constant literal' =>
      obtain ⟨hwords, hrest⟩ := List.append_inj h rfl
      rw [Literal.words_injective hwords]
      exact ⟨rfl, hrest⟩
    | register | global => exact absurd hkey (by simp [key])

/-- Operands with the same words are the same. -/
theorem words_injective (h : left.words = right.words) : left = right := by
  refine (words_append_injective hnodup hleft hright (?_ : _ ++ [] = _ ++ [])).1
  rw [h]

omit hleft hright in
/-- The words of operands tell the operands. -/
theorem flatten_words_injective {operands operands' : List Operand}
    (hoperands : ∀ operand ∈ operands, operand.Known globals)
    (hoperands' : ∀ operand ∈ operands', operand.Known globals)
    (h : (operands.map words).flatten = (operands'.map words).flatten) : operands = operands' := by
  induction operands generalizing operands' with
  | nil =>
    cases operands' with
    | nil => rfl
    | cons operand operands' => simp [words_ne_nil] at h
  | cons operand operands ih =>
    obtain ⟨hoperand, hoperands⟩ := List.forall_mem_cons.1 hoperands
    cases operands' with
    | nil => simp [words_ne_nil] at h
    | cons operand' operands' =>
      obtain ⟨hoperand', hoperands'⟩ := List.forall_mem_cons.1 hoperands'
      obtain ⟨hsame, hrest⟩ := words_append_injective hnodup hoperand hoperand' h
      rw [hsame, ih hoperands hoperands' hrest]

end Operand

namespace Producer

/-- The key of the words of an instruction with a result. -/
def key {κ : Type} : Producer κ → String
  | call _ _ => "call"
  | alloc _ => "alloc"
  | load _ => "load"

/-- The first word of an instruction with a result tells which one it is. -/
theorem key_words (producer : Producer String) :
    producer.words.head?.map Word.key = some producer.key := by
  cases producer <;> simp [words, key, Word.key]

/-- The words of an instruction with a result tell the instruction. -/
theorem words_injective {globals : List (String × Literal)} (hnodup : (globals.map Prod.fst).Nodup)
    {left right : Producer String} (hleft : left.Known globals) (hright : right.Known globals)
    (h : left.words = right.words) : left = right := by
  have hkey : left.key = right.key := by
    have hkeys := key_words left
    rwa [h, key_words, eq_comm, Option.some.injEq] at hkeys
  cases left with
  | call callee arguments =>
    cases right with
    | call callee' arguments' =>
      obtain ⟨rfl, harguments⟩ : callee = callee' ∧
          (arguments.map Operand.words).flatten = (arguments'.map Operand.words).flatten := by
        simpa [words] using h
      rw [Operand.flatten_words_injective hnodup hleft hright harguments]
    | alloc | load => exact absurd hkey (by simp [key])
  | alloc type =>
    cases right with
    | alloc type' => simpa [words] using h
    | call | load => exact absurd hkey (by simp [key])
  | load pointer =>
    cases right with
    | load pointer' =>
      rw [Operand.words_injective hnodup hleft hright (by simpa [words] using h)]
    | call | alloc => exact absurd hkey (by simp [key])

end Producer

namespace Statement

/-- The key of the words of an instruction. -/
def key {κ : Type} : Statement κ → String
  | produce producer => producer.key
  | assign _ _ => "%"
  | set _ _ => "%"
  | ret _ => "ret"
  | store _ _ => "store"
  | jump _ => "jmp"
  | branch _ _ _ => "cjmp"

/-- The first word of a statement tells which form it has. -/
theorem key_words (statement : Statement String) :
    statement.words.head?.map Word.key = some statement.key := by
  cases statement with
  | produce producer => exact producer.key_words
  | ret operand => cases operand <;> simp [words, key, Word.key]
  | assign | set | store | jump | branch => simp [words, key, Word.key]

/-- What an instruction with a result begins with, no other instruction does. -/
theorem key_producer_ne {producer : Producer String} {statement : Statement String}
    (h : ∀ producer', statement ≠ produce producer') : producer.key ≠ statement.key := by
  cases producer <;> cases statement <;> simp_all [key, Producer.key]

/-- The words of an instruction tell the instruction. -/
theorem words_injective {globals : List (String × Literal)} (hnodup : (globals.map Prod.fst).Nodup)
    {left right : Statement String} (hleft : left.Known globals) (hright : right.Known globals)
    (h : left.words = right.words) : left = right := by
  have hkey : left.key = right.key := by
    have hkeys := key_words left
    rwa [h, key_words, eq_comm, Option.some.injEq] at hkeys
  -- behind a register and its mark stands an instruction or an operand, and these begin apart
  have hoperand : ∀ (producer : Producer String) (operand : Operand),
      producer.words ≠ operand.words := by
    intro producer operand hsame
    have hkeys := producer.key_words
    have hkeys' := operand.key_words []
    rw [List.append_nil, ← hsame, hkeys, Option.some.injEq] at hkeys'
    cases producer <;> cases operand <;>
      exact absurd hkeys' (by simp [Operand.key, Producer.key])
  cases left with
  | produce producer =>
    cases right with
    | produce producer' => rw [Producer.words_injective hnodup hleft hright h]
    | assign | set | ret | store | jump | branch => exact absurd hkey (key_producer_ne nofun)
  | assign name producer =>
    cases right with
    | assign name' producer' =>
      obtain ⟨rfl, hwords⟩ : name = name' ∧ producer.words = producer'.words := by
        simpa [words] using h
      rw [Producer.words_injective hnodup hleft hright hwords]
    | set name' operand =>
      exact absurd (List.cons.inj h).2 (hoperand producer operand)
    | produce => exact absurd hkey.symm (key_producer_ne nofun)
    | ret | store | jump | branch => exact absurd hkey (by simp [key])
  | set name operand =>
    cases right with
    | set name' operand' =>
      obtain ⟨rfl, hwords⟩ : name = name' ∧ operand.words = operand'.words := by
        simpa [words] using h
      rw [Operand.words_injective hnodup hleft hright hwords]
    | assign name' producer =>
      exact absurd (List.cons.inj h).2.symm (hoperand producer operand)
    | produce => exact absurd hkey.symm (key_producer_ne nofun)
    | ret | store | jump | branch => exact absurd hkey (by simp [key])
  | ret operand =>
    cases right with
    | ret operand' =>
      cases operand with
      | none =>
        cases operand' with
        | none => rfl
        | some operand' => exact absurd (List.cons.inj h).2.symm operand'.words_ne_nil
      | some operand =>
        cases operand' with
        | none => exact absurd (List.cons.inj h).2 operand.words_ne_nil
        | some operand' =>
          rw [Operand.words_injective hnodup (hleft operand rfl) (hright operand' rfl)
            (List.cons.inj h).2]
    | produce => exact absurd hkey.symm (key_producer_ne nofun)
    | assign | set | store | jump | branch => exact absurd hkey (by simp [key])
  | store pointer operand =>
    cases right with
    | store pointer' operand' =>
      have hwords : pointer.words ++ operand.words = pointer'.words ++ operand'.words :=
        (List.cons.inj h).2
      obtain ⟨rfl, hoperands⟩ := Operand.words_append_injective hnodup hleft.1 hright.1 hwords
      rw [Operand.words_injective hnodup hleft.2 hright.2 hoperands]
    | produce => exact absurd hkey.symm (key_producer_ne nofun)
    | assign | set | ret | jump | branch => exact absurd hkey (by simp [key])
  | jump target =>
    cases right with
    | jump target' => simpa [words] using h
    | produce => exact absurd hkey.symm (key_producer_ne nofun)
    | assign | set | ret | store | branch => exact absurd hkey (by simp [key])
  | branch condition whenTrue whenFalse =>
    cases right with
    | branch condition' whenTrue' whenFalse' =>
      obtain ⟨rfl, hwords⟩ := Operand.words_append_injective hnodup hleft hright
        (List.cons.inj h).2
      obtain ⟨rfl, rfl⟩ : whenTrue = whenTrue' ∧ whenFalse = whenFalse' := by simpa using hwords
      rfl
    | produce => exact absurd hkey.symm (key_producer_ne nofun)
    | assign | set | ret | store | jump => exact absurd hkey (by simp [key])

end Statement

/-! ## Lines -/

namespace TextLine

/-- The line that stands on a line of a source. -/
def ofSource : SourceLine → TextLine
  | .text characters =>
    ⟨characters.head? == some '\t',
      ((Token.ofLine 0 characters).toOption.getD []).map Word.ofToken⟩
  | .undecodable => ⟨false, []⟩

/-- A line in a source tells the line. -/
theorem ofSource_source {line : TextLine} (h : line.Valid) : ofSource line.source = line := by
  have hwords : (line.words.map (Word.token 0)).map Word.ofToken = line.words := by
    rw [List.map_map]
    refine (List.map_congr_left fun word hword => ?_).trans (List.map_id _)
    exact Word.ofToken_token (h.words word hword) 0
  have hindented : (line.text.toList.head? == some '\t') = line.indented := by
    rw [text, String.toList_append]
    cases line.indented with
    | true => rfl
    | false =>
      rw [if_neg Bool.false_ne_true]
      cases hspaced : (spaced (line.words.map Word.text)).toList with
      | nil => rfl
      | cons c rest =>
        have hc := not_blank_of_mem_spaced h.words (c := c) (by rw [hspaced]; exact .head _)
        simpa using hc.1
  rw [source, ofSource, Token.ofLine_text h.words_ne_nil h.words, hindented]
  exact congrArg (TextLine.mk line.indented) hwords

end TextLine

/-- The text of lines tells the lines. -/
theorem Source.lines_eq_of_text_eq {lines lines' : List TextLine}
    (hlines : ∀ line ∈ lines, line.Valid) (hlines' : ∀ line ∈ lines', line.Valid)
    (h : String.join (lines.map fun line => line.text ++ "\n") =
      String.join (lines'.map fun line => line.text ++ "\n")) : lines = lines' := by
  have hsources : lines.map TextLine.source = lines'.map TextLine.source := by
    rw [← ofText_lines hlines, ← ofText_lines hlines', h]
  refine eq_of_map_eq (fun left right hleft hright hsame => ?_) hlines hlines' hsources
  rw [← TextLine.ofSource_source hleft, hsame, TextLine.ofSource_source hright]

/-! ## Blocks and functions -/

section Globals

variable {target : String → Prop} {globals : List (String × Literal)}
  (hnodup : (globals.map Prod.fst).Nodup)
include hnodup

/-- The lines of statements tell the statements. -/
theorem Statement.lines_injective {statements statements' : List (Statement String)}
    (h : ∀ statement ∈ statements, statement.Readable target globals)
    (h' : ∀ statement ∈ statements', statement.Readable target globals)
    (heq : statements.map (fun statement => (⟨true, statement.words⟩ : TextLine)) =
      statements'.map fun statement => ⟨true, statement.words⟩) : statements = statements' := by
  refine eq_of_map_eq (fun left right hleft hright hsame => ?_) h h' heq
  exact words_injective hnodup hleft.known hright.known (TextLine.mk.inj hsame).2

/-- The lines of a block tell it from what follows, unless a statement follows. -/
theorem Block.lines_append_injective {block block' : Block (Statement String)}
    (h : block.Readable target globals) (h' : block'.Readable target globals) {isFirst : Bool}
    {rest rest' : List TextLine} (hrest : ∀ line ∈ rest.head?, line.indented = false)
    (hrest' : ∀ line ∈ rest'.head?, line.indented = false)
    (heq : block.lines isFirst ++ rest = block'.lines isFirst ++ rest') :
    block = block' ∧ rest = rest' := by
  have hindented : ∀ statements : List (Statement String), ∀ line ∈
      statements.map fun statement => (⟨true, statement.words⟩ : TextLine), line.indented := by
    intro statements line hmem
    obtain ⟨statement, -, rfl⟩ := List.mem_map.1 hmem
    rfl
  -- a block without a line for its label begins with a statement
  have hbegins : ∀ block : Block (Statement String), block.Readable target globals → ∀ rest,
      ((block.statements.map fun statement => (⟨true, statement.words⟩ : TextLine)) ++
        rest).head?.map TextLine.indented = some true := by
    intro block hblock rest
    obtain ⟨statement, statements, hstatements⟩ := List.exists_cons_of_ne_nil hblock.filled
    rw [hstatements]
    rfl
  have hbodies : block.name = block'.name ∧
      (block.statements.map fun statement => (⟨true, statement.words⟩ : TextLine)) ++ rest =
        (block'.statements.map fun statement => ⟨true, statement.words⟩) ++ rest' := by
    rw [lines, lines, List.append_assoc, List.append_assoc] at heq
    by_cases hopened : (isFirst && block.name.isEmpty) = true
    · by_cases hopened' : (isFirst && block'.name.isEmpty) = true
      · rw [if_pos hopened, if_pos hopened'] at heq
        have hname := String.isEmpty_iff.1 (Bool.and_eq_true_iff.1 hopened).2
        have hname' := String.isEmpty_iff.1 (Bool.and_eq_true_iff.1 hopened').2
        exact ⟨hname.trans hname'.symm, heq⟩
      · rw [if_pos hopened, if_neg hopened', List.nil_append] at heq
        have hhead := hbegins block h rest
        rw [heq] at hhead
        exact absurd hhead (by simp)
    · by_cases hopened' : (isFirst && block'.name.isEmpty) = true
      · rw [if_neg hopened, if_pos hopened', List.nil_append] at heq
        have hhead := hbegins block' h' rest'
        rw [← heq] at hhead
        exact absurd hhead (by simp)
      · rw [if_neg hopened, if_neg hopened'] at heq
        obtain ⟨hlabel, hbodies⟩ := List.cons.inj heq
        exact ⟨by simpa using hlabel, hbodies⟩
  obtain ⟨hname, hbodies⟩ := hbodies
  obtain ⟨hlines, hrests⟩ := cut_unique TextLine.indented (hindented _) (hindented _) hrest hrest'
    hbodies
  have hstatements := Statement.lines_injective hnodup h.statements h'.statements hlines
  refine ⟨?_, hrests⟩
  cases block
  cases block'
  simp_all

omit hnodup in
/-- Blocks behind the first begin with a label. -/
theorem Routine.indented_bodyLines (blocks : List (Block (Statement String))) :
    ∀ line ∈ (bodyLines false blocks).head?, line.indented = false := by
  cases blocks with
  | nil => exact nofun
  | cons block blocks =>
    intro line hline
    obtain rfl := Option.some.inj hline
    rfl

/-- The lines of blocks tell the blocks. -/
theorem Routine.bodyLines_injective {blocks blocks' : List (Block (Statement String))}
    (h : ∀ block ∈ blocks, block.Readable target globals)
    (h' : ∀ block ∈ blocks', block.Readable target globals) {isFirst : Bool}
    (heq : bodyLines isFirst blocks = bodyLines isFirst blocks') : blocks = blocks' := by
  have hne : ∀ block : Block (Statement String), block.Readable target globals → ∀ isFirst rest,
      block.lines isFirst ++ rest ≠ [] := by
    intro block hblock isFirst rest hnil
    have hstatements := (List.append_eq_nil_iff.1 (List.append_eq_nil_iff.1 hnil).1).2
    exact hblock.filled (List.map_eq_nil_iff.1 hstatements)
  induction blocks generalizing blocks' isFirst with
  | nil =>
    cases blocks' with
    | nil => rfl
    | cons block' blocks' => exact absurd heq.symm (hne block' (List.forall_mem_cons.1 h').1 _ _)
  | cons block blocks ih =>
    obtain ⟨hblock, h⟩ := List.forall_mem_cons.1 h
    cases blocks' with
    | nil => exact absurd heq (hne block hblock _ _)
    | cons block' blocks' =>
      obtain ⟨hblock', h'⟩ := List.forall_mem_cons.1 h'
      obtain ⟨hsame, hrest⟩ := Block.lines_append_injective hnodup hblock hblock'
        (indented_bodyLines blocks) (indented_bodyLines blocks') heq
      rw [hsame, ih h h' hrest]

omit hnodup in
/-- No line of a block is the end of a function. -/
theorem Routine.not_end_bodyLines {isFirst : Bool} {blocks : List (Block (Statement String))} :
    ∀ line ∈ bodyLines isFirst blocks, line.words.head? != some (.bare "enddef") := by
  induction blocks generalizing isFirst with
  | nil => exact fun _ hline => absurd hline List.not_mem_nil
  | cons block blocks ih =>
    intro line hline
    -- labels have their mark in front, and instructions begin with other words
    rw [bodyLines, List.mem_append] at hline
    rcases hline with hline | hline
    · rw [Block.lines, List.mem_append] at hline
      rcases hline with hline | hline
      · split at hline
        · exact absurd hline List.not_mem_nil
        · obtain rfl := List.mem_singleton.1 hline
          have hmark : "@" ++ block.name ≠ "enddef" := fun hsame => by
            simpa using congrArg (fun text => text.toList.head?) hsame
          simpa using hmark
      · obtain ⟨statement, -, rfl⟩ := List.mem_map.1 hline
        rw [bne_iff_ne]
        intro hhead
        have hkey := statement.key_words
        rw [show statement.words.head? = _ from hhead] at hkey
        cases statement with
        | produce producer =>
          cases producer <;> exact absurd hkey (by simp [Word.key, Statement.key, Producer.key])
        | assign | set | ret | store | jump | branch =>
          exact absurd hkey (by simp [Word.key, Statement.key])
    · exact ih line hline

omit hnodup in
/-- The words of parameters and the mark behind them tell the types, the names and whether there
is a mark. -/
theorem Routine.paramWords_injective {types types' names names' : List String}
    {variadic variadic' : Bool} (hlength : types.length = names.length)
    (hlength' : types'.length = names'.length)
    (heq : paramWords types names ++ (if variadic then [.bare "?"] else []) =
      paramWords types' names' ++ if variadic' then [.bare "?"] else []) :
    types = types' ∧ names = names' ∧ variadic = variadic' := by
  induction types generalizing types' names names' with
  | nil =>
    obtain rfl := List.length_eq_zero_iff.1 hlength.symm
    cases types' with
    | nil =>
      obtain rfl := List.length_eq_zero_iff.1 hlength'.symm
      cases variadic <;> cases variadic' <;> simp_all [paramWords]
    | cons type' types' =>
      obtain ⟨name', names', rfl⟩ := List.exists_cons_of_length_eq_add_one hlength'.symm
      cases variadic <;> simp [paramWords] at heq
  | cons type types ih =>
    obtain ⟨name, names, rfl⟩ := List.exists_cons_of_length_eq_add_one hlength.symm
    cases types' with
    | nil => cases variadic' <;> simp [paramWords] at heq
    | cons type' types' =>
      obtain ⟨name', names', rfl⟩ := List.exists_cons_of_length_eq_add_one hlength'.symm
      simp only [paramWords, List.cons_append, List.cons.injEq, Word.bare.injEq] at heq
      obtain ⟨rfl, rfl, hrest⟩ := heq
      obtain ⟨rfl, rfl, rfl⟩ := ih (Nat.succ.inj hlength) (Nat.succ.inj hlength') hrest
      exact ⟨rfl, rfl, rfl⟩

omit hnodup in
/-- The words of a header tell the prototype, the names of the parameters and whether the function
has blocks. -/
theorem Routine.headerWords_injective {σ : Type} {routine routine' : Routine σ}
    (heq : routine.headerWords = routine'.headerWords) :
    routine.prototype = routine'.prototype ∧ routine.named.params = routine'.named.params ∧
      routine.blocks.isEmpty = routine'.blocks.isEmpty := by
  have hlength : ∀ routine : Routine σ,
      routine.prototype.params.length = routine.named.params.length := fun routine =>
    (length_completed 0 _ _).symm
  simp only [headerWords, List.cons_append, List.nil_append, List.cons.injEq,
    Word.bare.injEq] at heq
  obtain ⟨hkeyword, hresult, hname, hparams⟩ := heq
  obtain ⟨htypes, hnames, hvariadic⟩ := paramWords_injective (hlength routine) (hlength routine')
    hparams
  refine ⟨?_, hnames, ?_⟩
  · cases hprototype : routine.prototype
    cases hprototype' : routine'.prototype
    simp_all
  · revert hkeyword
    cases routine.blocks.isEmpty <;> cases routine'.blocks.isEmpty <;> decide

/-- The lines of a function tell it from what follows, up to names that have been made up. -/
theorem Routine.lines_append_injective {routine routine' : Routine (Statement String)}
    (h : routine.Readable target globals) (h' : routine'.Readable target globals)
    {rest rest' : List TextLine}
    (heq : routine.lines ++ rest = routine'.lines ++ rest') :
    routine.named = routine'.named ∧ rest = rest' := by
  rw [lines, lines] at heq
  obtain ⟨hheader, hrest⟩ := List.cons.inj heq
  obtain ⟨hprototype, hparams, hblocks⟩ :=
    headerWords_injective (TextLine.mk.inj hheader).2
  suffices hbodies : routine.blocks = routine'.blocks ∧ rest = rest' by
    refine ⟨?_, hbodies.2⟩
    rw [show routine.named = ⟨routine.prototype, routine.named.params, routine.blocks⟩ from rfl,
      hprototype, hparams, hbodies.1]
    rfl
  rw [← hblocks] at hrest
  cases hempty : routine.blocks.isEmpty with
  | true =>
    rw [hempty] at hrest hblocks
    exact ⟨(List.isEmpty_iff.1 hempty).trans (List.isEmpty_iff.1 hblocks.symm).symm, hrest⟩
  | false =>
    simp only [hempty, Bool.false_eq_true, if_false, List.append_eq, List.append_assoc] at hrest
    -- the first line that ends a function ends both bodies
    obtain ⟨hbodies, hends⟩ := cut_unique (fun line => line.words.head? != some (.bare "enddef"))
      not_end_bodyLines not_end_bodyLines (by simp) (by simp) hrest
    exact ⟨bodyLines_injective hnodup h.blocks h'.blocks hbodies, (List.cons.inj hends).2⟩

/-- The lines of functions tell the functions, up to names that have been made up. -/
theorem Routine.flatten_lines_injective {routines routines' : List (Routine (Statement String))}
    (h : ∀ routine ∈ routines, routine.Readable target globals)
    (h' : ∀ routine ∈ routines', routine.Readable target globals)
    (heq : (routines.map lines).flatten = (routines'.map lines).flatten) :
    routines.map named = routines'.map named := by
  induction routines generalizing routines' with
  | nil =>
    cases routines' with
    | nil => rfl
    | cons routine' routines' => exact nomatch heq
  | cons routine routines ih =>
    obtain ⟨hroutine, h⟩ := List.forall_mem_cons.1 h
    cases routines' with
    | nil => exact nomatch heq
    | cons routine' routines' =>
      obtain ⟨hroutine', h'⟩ := List.forall_mem_cons.1 h'
      obtain ⟨hsame, hrest⟩ := lines_append_injective hnodup hroutine hroutine' heq
      rw [List.map_cons, List.map_cons, hsame, ih h h' hrest]

end Globals

namespace Outline

/-- **Texts tell outlines apart**: the text of an outline that can be read tells the outline, up to
names that have been made up. -/
theorem Readable.named_eq_of_text_eq {target : String → Prop}
    (htarget : ∀ name, target name → Plain name) {outline outline' : Outline (Statement String)}
    (h : outline.Readable target) (h' : outline'.Readable target)
    (htext : outline.text = outline'.text) : outline.named = outline'.named := by
  have hlines : outline.lines = outline'.lines :=
    Source.lines_eq_of_text_eq (h.valid_lines htarget) (h'.valid_lines htarget) htext
  -- globals stand in front, and the header of a function is no line of a global
  have hglobal : ∀ globals : List (String × Literal), ∀ line ∈
      globals.map fun binding => globalLine binding.1 binding.2,
      (line.words.head? == some (.bare "global")) = true := by
    intro globals line hmem
    obtain ⟨binding, -, rfl⟩ := List.mem_map.1 hmem
    rfl
  have hheader : ∀ routines : List (Routine (Statement String)), ∀ line ∈
      (routines.map Routine.lines).flatten.head?,
      (line.words.head? == some (.bare "global")) = false := by
    intro routines line hline
    cases routines with
    | nil => exact nomatch hline
    | cons routine routines =>
      obtain rfl := Option.some.inj hline
      show (some (Word.bare (if routine.blocks.isEmpty then "dec" else "def")) == _) = false
      split <;> rfl
  obtain ⟨hglobals, hroutines⟩ := cut_unique
    (fun line => line.words.head? == some (.bare "global")) (hglobal _) (hglobal _) (hheader _)
    (hheader _) hlines
  have hsame : outline.globals = outline'.globals := by
    refine List.map_injective_iff.2 ?_ hglobals
    rintro ⟨name, literal⟩ ⟨name', literal'⟩ hline
    simp only [globalLine, TextLine.mk.injEq, List.cons.injEq, Word.bare.injEq, true_and] at hline
    obtain ⟨hname, hliteral⟩ := hline
    rw [Literal.words_injective hliteral, (String.append_right_inj _).1 hname]
  rw [named, named, hsame, Routine.flatten_lines_injective h.globalsNodup h.routines
    (hsame ▸ h'.routines) hroutines]

end Outline

end ChainIR
