import ChainIR.Binary64.Numeral
import ChainIR.Binary64.Shortest
import ChainIR.Program.TypeName
import ChainIR.Text.Escape

/-! # Constants

A constant is a literal with its type. The type decides how the text of a literal is read:
numbers are numerals and strings are taken as they are. -/

namespace ChainIR

/-- Why a literal has no value. -/
inductive LiteralError
  /-- The text is not a numeral. -/
  | malformedNumber (text : String)
  /-- There are no literals of the type. -/
  | unsupportedType (name : String)
  deriving DecidableEq

namespace LiteralError

/-- What a literal error says. -/
def message : LiteralError → String
  | malformedNumber text => "malformed number `" ++ text ++ "`"
  | unsupportedType name => "literals of type `" ++ name ++ "` are not supported"

/-- What lies behind a literal error. -/
def causes : LiteralError → List String
  | malformedNumber text =>
    [if text.isEmpty then "cannot parse float from empty string" else "invalid float literal"]
  | unsupportedType _ => []

end LiteralError

namespace Literal

/-- The text of a literal in a source. -/
def text : Literal → String
  | num value => String.ofList value.text
  | str text => "\"" ++ Escape.encodeString text ++ "\""

/-- Equality of literals, numeric on numbers. -/
def equals : Literal → Literal → Bool
  | num left, num right => left.equals right
  | str left, str right => left == right
  | _, _ => false

end Literal

namespace Constant

/-- The constant of type `type`, named `name`, that a literal denotes. -/
def ofText (type : TypeRef) (name text : String) : Except LiteralError Constant :=
  match name with
  | "num" =>
    match Binary64.ofNumeral? text.toList with
    | some value => .ok ⟨type, .num value⟩
    | none => .error (.malformedNumber text)
  | "str" => .ok ⟨type, .str text⟩
  | name => .error (.unsupportedType name)

/-- Equality of constants: one type and equal literals. -/
def equals (left right : Constant) : Bool :=
  left.type == right.type && left.literal.equals right.literal

end Constant

namespace Program

/-- The constant of a type that a literal denotes. -/
def constantOfText (program : Program) (type : TypeRef) (text : String) :
    Except Fault (Except LiteralError Constant) :=
  return Constant.ofText type (← program.typeName type) text

/-- The words of a constant in a source. -/
def constantWords (program : Program) (constant : Constant) : Except Fault (List String) :=
  return ["const", ← program.typeName constant.type, constant.literal.text]

end Program

namespace Edit

/-- A number as a constant. -/
def numConstant (value : Binary64) : Edit Constant := return ⟨← numType, .num value⟩

/-- A string as a constant. -/
def strConstant (text : String) : Edit Constant := return ⟨← strType, .str text⟩

end Edit

end ChainIR
