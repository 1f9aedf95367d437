import ChainIR.Program.Function

/-! # The builtin functions

Every program starts with the same thirteen functions. -/

namespace ChainIR

namespace Edit

/-- Declare functions of one type. -/
def declareAll (names : List String) (signature : Signature) : Edit Unit := do
  let type ← functionType signature
  for name in names do
    let _ ← declareFunction name type

/-- Declare the builtin functions. -/
def declareBuiltins : Edit Unit := do
  let void ← voidType
  let num ← numType
  let str ← strType
  declareAll ["+", "-", "*", "/", "==", "&&"] ⟨num, [num, num], false⟩
  declareAll ["!="] ⟨num, [str, str], false⟩
  declareAll ["?"] ⟨num, [num, num, num], false⟩
  declareAll ["random"] ⟨num, [], false⟩
  declareAll ["floor"] ⟨num, [num], false⟩
  declareAll ["num"] ⟨num, [str], false⟩
  declareAll ["printf"] ⟨void, [str], true⟩
  declareAll ["readf"] ⟨str, [str], true⟩

end Edit

namespace Program

/-- The number of builtin functions. -/
def builtinCount : Nat := 13

/-- The program that holds the builtin functions and nothing else. -/
def initial : Program :=
  match Edit.declareBuiltins.run {} with
  | .ok (_, program) => program
  | .error _ => {}

end Program

end ChainIR
