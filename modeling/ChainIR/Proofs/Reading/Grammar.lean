import Mathlib
import ChainIR.Token

/-! # The grammar of a line of a body

* line: `%register` producer, `%register` value, `ret`, `ret` value, `store` value value,
  `jmp` target, `cjmp` value target target, or a producer;
* producer: `call` token value ..., `alloc` token, `load` value;
* value: `%register` token, `$global`, or `const` token token.

A derivation is a tree with tokens at its leaves. What a token has to be in its place is part of
the tree, and a tree derives the tokens that it yields. The grammar is unambiguous: tokens have at
most one derivation (`LineTree.tokens_injective`). -/

namespace ChainIR

namespace Token

/-- The tokens of a class. -/
abbrev OfKind (kind : TokenKind) := {token : Token // token.kind = kind}

/-- The tokens that are the keyword `word`. -/
abbrev Keyword (word : String) := {token : Token // token.isWord word}

/-- The tokens that may stand for a label, with or without its mark. -/
abbrev Target := {token : Token // token.kind = .block ∨ token.kind = .identifier ∨
  token.kind = .number}

/-- A keyword is an identifier or an operator with its text. -/
theorem isWord_iff {token : Token} {word : String} :
    token.isWord word ↔ (token.kind = .identifier ∨ token.kind = .operator) ∧ token.value = word := by
  simp [isWord]

/-- A keyword is no other keyword. -/
@[simp] theorem Keyword.isWord_eq {word : String} (keyword : Keyword word) (other : String) :
    keyword.1.isWord other = decide (word = other) := by
  obtain ⟨hkind, hvalue⟩ := isWord_iff.1 keyword.2
  rw [Bool.eq_iff_iff, isWord_iff, decide_eq_true_iff, hvalue]
  exact and_iff_right hkind

/-- A keyword has no class mark. -/
theorem Keyword.kind_ne {word : String} (keyword : Keyword word) {kind : TokenKind}
    (hmark : kind ≠ .identifier ∧ kind ≠ .operator) : keyword.1.kind ≠ kind := by
  obtain ⟨hkind | hkind, -⟩ := isWord_iff.1 keyword.2
  · exact fun h => hmark.1 (h.symm.trans hkind)
  · exact fun h => hmark.2 (h.symm.trans hkind)

end Token

/-! ## Derivations -/

/-- The derivations of a value. -/
inductive OperandTree
  /-- A register and its type. -/
  | register (name : Token.OfKind .register) (type : Token)
  /-- A global. -/
  | global (name : Token.OfKind .global)
  /-- A constant. -/
  | constant (keyword : Token.Keyword "const") (type literal : Token)
  deriving DecidableEq

/-- The derivations of an instruction that has a result. -/
inductive ProducerTree
  /-- A call. -/
  | call (keyword : Token.Keyword "call") (name : Token) (arguments : List OperandTree)
  /-- An allocation. -/
  | alloc (keyword : Token.Keyword "alloc") (type : Token)
  /-- A load. -/
  | load (keyword : Token.Keyword "load") (pointer : OperandTree)
  deriving DecidableEq

/-- The derivations of a line of a body. -/
inductive LineTree
  /-- A register is set to the result of an instruction. -/
  | setResult (name : Token.OfKind .register) (producer : ProducerTree)
  /-- A register is set to a value. -/
  | setValue (name : Token.OfKind .register) (value : OperandTree)
  /-- The function is left without a value. -/
  | ret (keyword : Token.Keyword "ret")
  /-- The function is left with a value. -/
  | retValue (keyword : Token.Keyword "ret") (value : OperandTree)
  /-- A value is stored. -/
  | store (keyword : Token.Keyword "store") (pointer value : OperandTree)
  /-- Another label is gone on at. -/
  | jump (keyword : Token.Keyword "jmp") (target : Token.Target)
  /-- One of two labels is gone on at. -/
  | branch (keyword : Token.Keyword "cjmp") (condition : OperandTree)
      (whenTrue whenFalse : Token.Target)
  /-- The result of an instruction is dropped. -/
  | produce (producer : ProducerTree)
  deriving DecidableEq

namespace OperandTree

/-- The tokens of a value. -/
def tokens : OperandTree → List Token
  | register name type => [name.1, type]
  | global name => [name.1]
  | constant keyword type literal => [keyword.1, type, literal]

/-- The tokens of values in a row. -/
def listTokens (operands : List OperandTree) : List Token := operands.flatMap tokens

@[simp] theorem listTokens_nil : listTokens [] = [] := rfl

@[simp] theorem listTokens_cons (operand : OperandTree) (operands : List OperandTree) :
    listTokens (operand :: operands) = operand.tokens ++ listTokens operands := rfl

end OperandTree

namespace ProducerTree

/-- The tokens of an instruction that has a result. -/
def tokens : ProducerTree → List Token
  | call keyword name arguments => keyword.1 :: name :: OperandTree.listTokens arguments
  | alloc keyword type => [keyword.1, type]
  | load keyword pointer => keyword.1 :: pointer.tokens

/-- The keyword that an instruction with a result begins with. -/
def word : ProducerTree → String
  | call _ _ _ => "call"
  | alloc _ _ => "alloc"
  | load _ _ => "load"

end ProducerTree

namespace LineTree

/-- The tokens of a line. -/
def tokens : LineTree → List Token
  | setResult name producer => name.1 :: producer.tokens
  | setValue name value => name.1 :: value.tokens
  | ret keyword => [keyword.1]
  | retValue keyword value => keyword.1 :: value.tokens
  | store keyword pointer value => keyword.1 :: (pointer.tokens ++ value.tokens)
  | jump keyword target => [keyword.1, target.1]
  | branch keyword condition whenTrue whenFalse =>
    keyword.1 :: (condition.tokens ++ [whenTrue.1, whenFalse.1])
  | produce producer => producer.tokens

/-- The keyword that a line begins with, `none` for a register. -/
def word? : LineTree → Option String
  | setResult _ _ => none
  | setValue _ _ => none
  | ret _ => some "ret"
  | retValue _ _ => some "ret"
  | store _ _ _ => some "store"
  | jump _ _ => some "jmp"
  | branch _ _ _ _ => some "cjmp"
  | produce producer => some producer.word

end LineTree

/-! ## Tokens have at most one derivation -/

namespace OperandTree

/-- An operand has a first token. -/
theorem tokens_ne_nil (operand : OperandTree) : operand.tokens ≠ [] := by
  cases operand <;> exact List.cons_ne_nil _ _

/-- The first token tells what a value is, and so how far it goes. -/
theorem eq_of_tokens_append {operand other : OperandTree} {rest rest' : List Token}
    (h : operand.tokens ++ rest = other.tokens ++ rest') : operand = other ∧ rest = rest' := by
  -- a first token of two forms would have two kinds, or be a keyword and have a mark
  cases operand <;> cases other <;> grind [tokens, Token.isWord_iff]

/-- The tokens of an operand determine its tree. -/
theorem tokens_injective : Function.Injective tokens := by
  intro operand other h
  exact (eq_of_tokens_append (congrArg (· ++ []) h)).1

/-- Values in a row are told apart one by one. -/
theorem listTokens_injective : Function.Injective listTokens := by
  intro operands
  induction operands with
  | nil =>
    intro others h
    cases others with
    | nil => rfl
    | cons other others => exact absurd (List.append_eq_nil_iff.1 h.symm).1 other.tokens_ne_nil
  | cons operand operands ih =>
    intro others h
    cases others with
    | nil => exact absurd (List.append_eq_nil_iff.1 h).1 operand.tokens_ne_nil
    | cons other others =>
      obtain ⟨rfl, hrest⟩ := eq_of_tokens_append h
      rw [ih hrest]

end OperandTree

namespace ProducerTree

/-- An instruction with a result begins with its keyword. -/
theorem exists_tokens (producer : ProducerTree) : ∃ first rest,
    producer.tokens = first :: rest ∧ first.isWord producer.word := by
  cases producer with
  | call keyword name arguments => exact ⟨_, _, rfl, keyword.2⟩
  | alloc keyword type => exact ⟨_, _, rfl, keyword.2⟩
  | load keyword pointer => exact ⟨_, _, rfl, keyword.2⟩

/-- Three keywords start an instruction with a result. -/
theorem word_eq (producer : ProducerTree) :
    producer.word = "call" ∨ producer.word = "alloc" ∨ producer.word = "load" := by
  cases producer <;> simp [word]

/-- No value begins as an instruction with a result does. -/
theorem tokens_ne_operand (producer : ProducerTree) (operand : OperandTree) :
    producer.tokens ≠ operand.tokens := by
  intro h
  cases producer <;> cases operand <;> grind [tokens, OperandTree.tokens, Token.isWord_iff]

/-- The tokens of an instruction with a result determine its tree. -/
theorem tokens_injective : Function.Injective tokens := by
  intro producer other h
  cases producer <;> cases other <;>
    grind [tokens, Token.isWord_iff, OperandTree.listTokens_injective.eq_iff,
      OperandTree.tokens_injective.eq_iff]

end ProducerTree

namespace LineTree

/-- A line begins with a register or with its keyword. -/
theorem exists_tokens (line : LineTree) : ∃ first rest, line.tokens = first :: rest ∧
    ∀ word, first.isWord word ↔ line.word? = some word := by
  have hregister (name : Token.OfKind .register) (word : String) :
      name.1.isWord word ↔ none = some word := by
    simp [Token.isWord, name.2]
  have hkeyword {expected : String} (keyword : Token.Keyword expected) (word : String) :
      keyword.1.isWord word ↔ some expected = some word := by
    simp
  cases line with
  | setResult name producer => exact ⟨_, _, rfl, hregister name⟩
  | setValue name value => exact ⟨_, _, rfl, hregister name⟩
  | ret keyword | retValue keyword | store keyword | jump keyword | branch keyword =>
    exact ⟨_, _, rfl, hkeyword keyword⟩
  | produce producer =>
    obtain ⟨first, rest, htokens, hfirst⟩ := producer.exists_tokens
    exact ⟨first, rest, htokens, hkeyword ⟨first, hfirst⟩⟩

/-- Lines of the same tokens have the same form. -/
theorem word?_eq_of_tokens {line other : LineTree} (h : line.tokens = other.tokens) :
    line.word? = other.word? := by
  obtain ⟨first, rest, htokens, hfirst⟩ := line.exists_tokens
  obtain ⟨first', rest', htokens', hfirst'⟩ := other.exists_tokens
  obtain rfl : first = first' := (List.cons.inj (htokens.symm.trans (h.trans htokens'))).1
  refine Option.ext fun word => ?_
  rw [← hfirst, ← hfirst']

/-- Tokens have at most one derivation. -/
theorem tokens_injective : Function.Injective tokens := by
  intro line other h
  -- lines of different forms begin with different words, but for those that the rest tells apart
  have hword := word?_eq_of_tokens h
  cases line with
  | setResult name producer =>
    cases other with
    | setResult name' producer' =>
      obtain ⟨hname, hproducer⟩ := List.cons.inj h
      rw [Subtype.ext hname, ProducerTree.tokens_injective hproducer]
    | setValue name' value =>
      exact absurd (List.cons.inj h).2 (producer.tokens_ne_operand value)
    | _ => cases hword
  | setValue name value =>
    cases other with
    | setResult name' producer =>
      exact absurd (List.cons.inj h).2.symm (producer.tokens_ne_operand value)
    | setValue name' value' =>
      obtain ⟨hname, hvalue⟩ := List.cons.inj h
      rw [Subtype.ext hname, OperandTree.tokens_injective hvalue]
    | _ => cases hword
  | ret keyword =>
    cases other with
    | ret keyword' => rw [Subtype.ext (List.cons.inj h).1]
    | retValue keyword' value => exact absurd (List.cons.inj h).2.symm value.tokens_ne_nil
    | _ => grind [word?, ProducerTree.word_eq]
  | retValue keyword value =>
    cases other with
    | ret keyword' => exact absurd (List.cons.inj h).2 value.tokens_ne_nil
    | retValue keyword' value' =>
      obtain ⟨hkeyword, hvalue⟩ := List.cons.inj h
      rw [Subtype.ext hkeyword, OperandTree.tokens_injective hvalue]
    | _ => grind [word?, ProducerTree.word_eq]
  | store keyword pointer value =>
    cases other with
    | store keyword' pointer' value' =>
      obtain ⟨hkeyword, hvalues⟩ := List.cons.inj h
      obtain ⟨rfl, hvalue⟩ := OperandTree.eq_of_tokens_append hvalues
      rw [Subtype.ext hkeyword, OperandTree.tokens_injective hvalue]
    | _ => grind [word?, ProducerTree.word_eq]
  | jump keyword target =>
    cases other with
    | jump keyword' target' =>
      obtain ⟨hkeyword, htarget⟩ := List.cons.inj h
      rw [Subtype.ext hkeyword, Subtype.ext (List.cons.inj htarget).1]
    | _ => grind [word?, ProducerTree.word_eq]
  | branch keyword condition whenTrue whenFalse =>
    cases other with
    | branch keyword' condition' whenTrue' whenFalse' =>
      obtain ⟨hkeyword, hrest⟩ := List.cons.inj h
      obtain ⟨rfl, htargets⟩ := OperandTree.eq_of_tokens_append hrest
      obtain ⟨htrue, hfalse⟩ := List.cons.inj htargets
      rw [Subtype.ext hkeyword, Subtype.ext htrue, Subtype.ext (List.cons.inj hfalse).1]
    | _ => grind [word?, ProducerTree.word_eq]
  | produce producer =>
    cases other with
    | produce producer' => rw [ProducerTree.tokens_injective h]
    | _ => grind [word?, ProducerTree.word_eq]

end LineTree

end ChainIR
