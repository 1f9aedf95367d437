import Mathlib
import ChainIR.Token
import ChainIR.Proofs.Outline.Basic
import ChainIR.Proofs.Types.Canonical

/-! # What the tokens of a line say

The grammar of lines, read off their tokens alone: operands (`Operand.ofTokens?`), instructions
(`Statement.ofLine?`), headers of functions (`Prototype.ofHeader?`) and definitions of globals
(`Literal.ofGlobalLine?`). No program is built on the way. Types are given by their canonical
names, callees by the names that are written, and of the lines in front only the globals matter:
a global is written without its type. -/

namespace ChainIR

/-! ## Single tokens -/

namespace Token

/-- The name of the type that a token names. -/
def typeName (token : Token) : String := TypeName.canonical token.value

/-- The jump target that stands first among tokens, with the tokens behind it. -/
def target? : List Token → Option (String × List Token)
  | [] => none
  | first :: rest =>
    if first.kind = .block ∨ first.kind = .identifier ∨ first.kind = .number then
      some (first.value, rest)
    else none

/-- The name of the label that a line opens: a line of one token, which is a block. -/
def labelOf? : List Token → Option String
  | [token] => if token.kind = .block then some token.value else none
  | _ => none

/-- Whether a line starts with the keyword `word`. -/
def startWith (word : String) (tokens : List Token) : Bool := tokens.head?.any (·.isWord word)

end Token

namespace Literal

/-- The literal of a type that a text denotes. -/
def ofText? (type text : String) : Option Literal :=
  match type with
  | "num" => (Binary64.ofNumeral? text.toList).map num
  | "str" => some (str text)
  | _ => none

/-- The name and the literal of a line that defines a global. -/
def ofGlobalLine? : List Token → Option (String × Literal)
  | [_, name, _, type, text] =>
    (ofText? type.typeName text.value).map fun literal => (name.value, literal)
  | _ => none

end Literal

/-! ## Operands and instructions -/

namespace Operand

variable (globals : List (String × Literal))

/-- The operand that stands first among tokens, with the tokens behind it. -/
def ofTokens? : List Token → Option (Operand × List Token)
  | [] => none
  | first :: rest =>
    if first.kind = .register then
      match rest with
      | type :: rest => some (register first.value type.typeName, rest)
      | [] => none
    else if first.kind = .global then
      (globals.lookup first.value).map fun literal => (global first.value literal.typeName, rest)
    else if first.isWord "const" then
      match rest with
      | type :: text :: rest =>
        (Literal.ofText? type.typeName text.value).map fun literal => (constant literal, rest)
      | _ => none
    else none

/-- The operands that tokens are, at most `count` of them. -/
def listWithin? : Nat → List Token → Option (List Operand)
  | _, [] => some []
  | 0, _ :: _ => none
  | count + 1, first :: rest => do
    let (operand, behind) ← ofTokens? globals (first :: rest)
    return operand :: (← listWithin? count behind)

/-- The operands that tokens are. An operand has at least one token, so there are no more operands
than tokens. -/
def listOfTokens? (tokens : List Token) : Option (List Operand) :=
  listWithin? globals tokens.length tokens

variable {globals}

/-- An operand has at least one token. -/
theorem length_lt_of_ofTokens? {tokens behind : List Token} {operand : Operand}
    (h : ofTokens? globals tokens = some (operand, behind)) : behind.length < tokens.length := by
  cases tokens with
  | nil => exact absurd h (by simp [ofTokens?])
  | cons first rest =>
    rw [ofTokens?.eq_def] at h
    dsimp only at h
    split at h
    · split at h
      · obtain ⟨-, rfl⟩ := Prod.mk.inj (Option.some.inj h)
        simp
      · cases h
    split at h
    · obtain ⟨literal, -, hequal⟩ := Option.map_eq_some_iff.1 h
      obtain ⟨-, rfl⟩ := Prod.mk.inj hequal
      simp
    split at h
    · split at h
      · obtain ⟨literal, -, hequal⟩ := Option.map_eq_some_iff.1 h
        obtain ⟨-, rfl⟩ := Prod.mk.inj hequal
        simp only [List.length_cons]
        omega
      · cases h
    · cases h

/-- The bound on the number of operands does not matter if it is no less than that of the
tokens. -/
theorem listWithin?_eq {count : Nat} {tokens : List Token} (h : tokens.length ≤ count) :
    listWithin? globals count tokens = listOfTokens? globals tokens := by
  induction count using Nat.strong_induction_on generalizing tokens with
  | _ count ih =>
    cases tokens with
    | nil => cases count <;> rfl
    | cons first rest =>
      obtain ⟨count, rfl⟩ : ∃ below, count = below + 1 := ⟨count - 1, by simp at h; omega⟩
      rw [listOfTokens?, List.length_cons, listWithin?, listWithin?]
      cases hfirst : ofTokens? globals (first :: rest) with
      | none => rfl
      | some result =>
        -- both bounds are enough for the tokens behind the first operand
        have hlt := length_lt_of_ofTokens? hfirst
        rw [List.length_cons] at hlt h
        simp only [Option.bind_eq_bind, Option.bind_some]
        rw [ih count (by omega) (by omega), ← ih rest.length (by omega) (by omega)]

/-- The operands of a line, one after the other. -/
theorem listOfTokens?_of_first {tokens behind : List Token} {operand : Operand}
    {operands : List Operand} (hfirst : ofTokens? globals tokens = some (operand, behind))
    (hrest : listOfTokens? globals behind = some operands) :
    listOfTokens? globals tokens = some (operand :: operands) := by
  have hlt := length_lt_of_ofTokens? hfirst
  cases tokens with
  | nil => exact absurd hfirst (by simp [ofTokens?])
  | cons first rest =>
    rw [List.length_cons] at hlt
    rw [listOfTokens?, List.length_cons, listWithin?, hfirst]
    simp only [Option.bind_eq_bind, Option.bind_some]
    rw [listWithin?_eq (by omega), hrest]
    rfl

end Operand

namespace Producer

variable (globals : List (String × Literal))

/-- The instruction with a result that stands first among tokens, with the tokens behind it. The
arguments of a call go on to the end of the line. -/
def ofTokens? : List Token → Option (Producer String × List Token)
  | [] => none
  | first :: rest =>
    if first.isWord "call" then
      match rest with
      | callee :: rest =>
        (Operand.listOfTokens? globals rest).map fun arguments => (call callee.value arguments, [])
      | [] => none
    else if first.isWord "alloc" then
      match rest with
      | type :: rest => some (alloc type.typeName, rest)
      | [] => none
    else if first.isWord "load" then
      (Operand.ofTokens? globals rest).map fun (pointer, rest) => (load pointer, rest)
    else none

end Producer

namespace Statement

variable (globals : List (String × Literal))

/-- The instruction that stands first among tokens, with the tokens behind it. -/
def ofTokens? : List Token → Option (Statement String × List Token)
  | [] => none
  | first :: rest =>
    if first.kind = .register then
      match Producer.ofTokens? globals rest with
      | some (producer, rest) => some (assign first.value producer, rest)
      | none => (Operand.ofTokens? globals rest).map fun (operand, rest) =>
          (set first.value operand, rest)
    else if first.isWord "ret" then
      if rest = [] then some (ret none, [])
      else (Operand.ofTokens? globals rest).map fun (operand, rest) => (ret (some operand), rest)
    else if first.isWord "store" then do
      let (pointer, rest) ← Operand.ofTokens? globals rest
      let (operand, rest) ← Operand.ofTokens? globals rest
      return (store pointer operand, rest)
    else if first.isWord "jmp" then
      (Token.target? rest).map fun (target, rest) => (jump target, rest)
    else if first.isWord "cjmp" then do
      let (condition, rest) ← Operand.ofTokens? globals rest
      let (whenTrue, rest) ← Token.target? rest
      let (whenFalse, rest) ← Token.target? rest
      return (branch condition whenTrue whenFalse, rest)
    else (Producer.ofTokens? globals (first :: rest)).map fun (producer, rest) =>
      (produce producer, rest)

/-- The instruction that a whole line says. -/
def ofLine? (tokens : List Token) : Option (Statement String) :=
  match ofTokens? globals tokens with
  | some (statement, []) => some statement
  | _ => none

end Statement

/-! ## Headers -/

namespace Prototype

/-- The parameters of a header, pairs of a type and a name, and whether further arguments may
follow. -/
def paramsOf? : List Token → Option (List (String × String) × Bool)
  | [] => some ([], false)
  | [mark] => if mark.isWord "?" then some ([], true) else none
  | type :: name :: rest =>
    if type.isWord "?" then none
    else (paramsOf? rest).map fun (params, variadic) =>
      ((type.typeName, name.value) :: params, variadic)

/-- The prototype that a header tells of, and the names of its parameters. -/
def ofHeader? : List Token → Option (Prototype × List String)
  | _ :: result :: name :: rest =>
    (paramsOf? rest).map fun (params, variadic) =>
      (⟨name.value, result.typeName, params.map Prod.fst, variadic⟩, params.map Prod.snd)
  | _ => none

/-- There are as many names of parameters as types. -/
theorem length_of_ofHeader? {tokens : List Token} {prototype : Prototype} {names : List String}
    (h : ofHeader? tokens = some (prototype, names)) :
    names.length = prototype.params.length := by
  rw [ofHeader?.eq_def] at h
  split at h
  · obtain ⟨⟨params, variadic⟩, -, hequal⟩ := Option.map_eq_some_iff.1 h
    obtain ⟨rfl, rfl⟩ := Prod.mk.inj hequal
    simp
  · cases h

end Prototype

end ChainIR
