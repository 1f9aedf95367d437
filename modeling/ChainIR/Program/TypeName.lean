import ChainIR.Program.Edit

/-! # Types and their names

Types are interned by canonical name: asking for a type twice gives one reference. A name is
resolved by `Edit.typeByName`: a name that is interned or primitive denotes a type, and a name
with `[size]` behind it denotes arrays of that type. -/

namespace ChainIR

/-- Why a name cannot be resolved to a type. -/
inductive TypeError
  /-- The size between the brackets is not a 64-bit decimal number. -/
  | malformedArraySize (name : String)
  /-- The array suffix does not end with a bracket. -/
  | malformedTypeName (name : String)
  deriving DecidableEq

namespace TypeError

/-- What a type error says. -/
def message : TypeError → String
  | malformedArraySize name => "malformed array size in type `" ++ name ++ "`"
  | malformedTypeName name => "malformed type name `" ++ name ++ "`"

end TypeError

namespace TypeName

/-- The name of an array type. -/
def array (element : String) (size : UInt64) : String :=
  element ++ "[" ++ toString size.toNat ++ "]"

/-- The name of a function type. -/
def function (result : String) (params : List String) (variadic : Bool) : String :=
  result ++ "(" ++ ", ".intercalate params ++ ")" ++ (if variadic then "?" else "")

/-- Read an array size: an optional plus and decimal digits below `2 ^ 64`. -/
def size? (text : List Char) : Option UInt64 :=
  let digits := match text with
    | '+' :: rest => rest
    | rest => rest
  let value := Nat.ofDigitChars 10 digits 0
  if digits ≠ [] ∧ digits.all Char.isDigit ∧ value < UInt64.size then some (.ofNat value) else none

/-- The size in the last suffix of the array type `name`, given as what stands behind its opening
bracket. -/
def suffixSize (name : String) (suffix : List Char) : Except TypeError UInt64 :=
  if suffix.getLast? = some ']' then
    match size? suffix.dropLast with
    | some size => .ok size
    | none => .error (.malformedArraySize name)
  else .error (.malformedTypeName name)

/-- The name made of a base and array suffixes, the last suffix first. -/
def joined (base : List Char) (suffixes : List (List Char)) : String :=
  String.ofList (['['].intercalate (base :: suffixes.reverse))

end TypeName

namespace Program

/-- The canonical name of a type. -/
def typeName (program : Program) (ref : TypeRef) : Except Fault String :=
  return (← program.type ref).name

/-- What a type takes and returns, `none` if it is not a function type. -/
def signature? (program : Program) (ref : TypeRef) : Except Fault (Option Signature) := do
  match (← program.type ref).shape with
  | .function signature => return some signature
  | _ => return none

end Program

namespace Edit

/-- The type interned as `name`; a type of the given shape is created if there is none. -/
def intern (name : String) (shape : TypeShape) : Edit TypeRef := fun program =>
  match program.typeNames.find? name with
  | some ref => .ok (ref, program)
  | none =>
    let (ref, types) := program.types.alloc ⟨name, shape⟩
    .ok (ref, { program with types, typeNames := program.typeNames.insert name ref })

/-- The type of functions that return nothing. -/
def voidType : Edit TypeRef := intern "void" .void

/-- The type of numbers. -/
def numType : Edit TypeRef := intern "num" .num

/-- The type of characters. -/
def chrType : Edit TypeRef := intern "chr" .chr

/-- The type of strings. -/
def strType : Edit TypeRef := intern "str" .str

/-- The type of arrays of `size` elements. -/
def arrayType (element : TypeRef) (size : UInt64) : Edit TypeRef := do
  let name ← ask (·.typeName element)
  intern (TypeName.array name size) (.array element size)

/-- The type of functions of a signature. -/
def functionType (signature : Signature) : Edit TypeRef := do
  let result ← ask (·.typeName signature.result)
  let params ← signature.params.mapM fun param => ask (·.typeName param)
  intern (TypeName.function result params signature.variadic) (.function signature)

/-- The type that a name without array suffix denotes. -/
def baseType? (name : String) : Edit (Option TypeRef) := do
  match (← get).typeNames.find? name with
  | some ref => return some ref
  | none =>
    match name with
    | "void" => some <$> voidType
    | "num" => some <$> numType
    | "chr" => some <$> chrType
    | "str" => some <$> strType
    | _ => return none

/-- The type that a base with array suffixes denotes, the last suffix first. A suffix counts only
if the name up to it is not interned; the last suffix is checked before those in front of it, and
no type is created unless all of them are sound and the base is known. -/
def typeOfPieces (base : List Char) :
    List (List Char) → Edit (Except TypeError (Option TypeRef))
  | [] => .ok <$> baseType? (String.ofList base)
  | suffix :: inner => do
    let name := TypeName.joined base (suffix :: inner)
    match (← get).typeNames.find? name with
    | some ref => return .ok (some ref)
    | none =>
      match TypeName.suffixSize name suffix with
      | .error error => return .error error
      | .ok size =>
        match ← typeOfPieces base inner with
        | .ok (some element) => (.ok ∘ some) <$> arrayType element size
        | other => return other

/-- The type that a name denotes, `none` if the name is unknown. -/
def typeByName (name : String) : Edit (Except TypeError (Option TypeRef)) :=
  match name.toList.splitOn '[' with
  | [] => return .ok none
  | base :: suffixes => typeOfPieces base suffixes.reverse

end Edit

end ChainIR
