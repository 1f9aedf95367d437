import ChainIR.Program.Constant
import ChainIR.Program.Cursor
import ChainIR.Token.Line

/-! # Why a source is rejected

A source is rejected with one error, which names the line it was found on. -/

namespace ChainIR

/-- Why an input cannot be read. -/
inductive InputError
  /-- A line is not valid UTF-8. -/
  | notUtf8
  /-- There is no such file. -/
  | notFound
  /-- The file is a directory. -/
  | isDirectory
  /-- A part of the path in front of the last is not a directory. -/
  | notDirectory
  /-- The path or a part of it is too long. -/
  | nameTooLong
  deriving DecidableEq

namespace InputError

/-- What an input error says. -/
def message : InputError → String
  | notUtf8 => "stream did not contain valid UTF-8"
  | notFound => "No such file or directory (os error 2)"
  | isDirectory => "Is a directory (os error 21)"
  | notDirectory => "Not a directory (os error 20)"
  | nameTooLong => "File name too long (os error 36)"

end InputError

/-- Why a source is rejected. -/
inductive ReadError
  /-- The input cannot be read. -/
  | input (cause : InputError)
  /-- A token is not what has to stand at its place. -/
  | unexpectedToken (token : Token) (expected : String)
  /-- A line ends too early. -/
  | unexpectedEnd (line : Nat) (expected : String)
  /-- A literal has no closing quote. -/
  | unterminatedLiteral (token : Token)
  /-- A type name is not known. -/
  | unknownType (token : Token)
  /-- A type name is malformed. -/
  | malformedType (token : Token) (cause : TypeError)
  /-- A literal has no value of its type. -/
  | malformedLiteral (token : Token) (cause : LiteralError)
  /-- No overload of a callee takes the arguments. -/
  | unresolvedCallee (name arguments : String) (line : Nat)
  /-- A global is not known. -/
  | unknownGlobal (token : Token)
  /-- A function is defined twice. -/
  | redefinition (name : String) (line : Nat)
  /-- A global is defined twice. -/
  | duplicateGlobal (name : String) (line : Nat)
  /-- A function ends that has not begun. -/
  | strayEnd (line : Nat)
  /-- The source ends inside a function. -/
  | unterminatedFunction (name : String)
  /-- An instruction has no place to go. -/
  | build (cause : BuildError)
  deriving DecidableEq

namespace ReadError

/-- The error of a line without tokens. -/
def ofLexError : LexError → ReadError
  | .undecodable => .input .notUtf8
  | .unterminatedLiteral token => .unterminatedLiteral token

/-- What a read error says. -/
def message : ReadError → String
  | input cause => "failed to read input: " ++ cause.message
  | unexpectedToken token expected =>
    "unexpected token " ++ token.text ++ ", expected " ++ expected
  | unexpectedEnd line expected =>
    "unexpected end of line " ++ toString line ++ ", expected " ++ expected
  | unterminatedLiteral token => "unterminated literal " ++ token.text
  | unknownType token => "unknown type " ++ token.text
  | malformedType token cause => "malformed type " ++ token.text ++ ": " ++ cause.message
  | malformedLiteral token cause => "malformed literal " ++ token.text ++ ": " ++ cause.message
  | unresolvedCallee name arguments line =>
    "no overload of `" ++ name ++ "` accepts (" ++ arguments ++ ") at line " ++ toString line
  | unknownGlobal token => "unknown global " ++ token.text
  | redefinition name line =>
    "redefinition of function `" ++ name ++ "` at line " ++ toString line
  | duplicateGlobal name line =>
    "global `" ++ name ++ "` is already defined, at line " ++ toString line
  | strayEnd line => "`enddef` without a function at line " ++ toString line
  | unterminatedFunction name => "function `" ++ name ++ "` is not terminated by `enddef`"
  | build cause => cause.message

/-- What lies behind a read error, outermost first. -/
def causes : ReadError → List String
  | input cause => [cause.message]
  | malformedType _ cause => [cause.message]
  | malformedLiteral _ cause => cause.message :: cause.causes
  | _ => []

end ReadError

/-- Why reading stops: the source is rejected, or a program was misused. -/
inductive Failure
  /-- The source is at fault. -/
  | rejected (error : ReadError)
  /-- The reader is at fault. -/
  | fault (fault : Fault)
  deriving DecidableEq

end ChainIR
