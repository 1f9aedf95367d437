/-! # Tokens

A token is a word of a source line with its class and the number of its line. -/

namespace ChainIR

/-- The classes of tokens. -/
inductive TokenKind
  /-- The end of the source, always alone on its line. -/
  | eof
  /-- A word that starts with a letter or an underscore. -/
  | identifier
  /-- A word that starts with a digit or a point. -/
  | number
  /-- A literal in double quotes; the value is what it stands for. -/
  | string
  /-- A literal in single quotes; the value is what it stands for. -/
  | char
  /-- Any other word. -/
  | operator
  /-- A word after `%`, which is not part of the value. -/
  | register
  /-- A word after `@`, which is not part of the value. -/
  | block
  /-- A word after `$`, which is not part of the value. -/
  | global
  deriving DecidableEq, Inhabited

namespace TokenKind

/-- The name of a class in messages. -/
def text : TokenKind → String
  | eof => "EOF"
  | identifier => "IDENTIFIER"
  | number => "NUMBER"
  | string => "STRING"
  | char => "CHAR"
  | operator => "OPERATOR"
  | register => "REGISTER"
  | block => "BLOCK"
  | global => "GLOBAL"

end TokenKind

/-- A word of a source line. -/
structure Token where
  /-- The class of the word. -/
  kind : TokenKind
  /-- What the word says, without quotes, escapes and class marks. -/
  value : String
  /-- The number of the line, counted from one. -/
  line : Nat
  deriving DecidableEq, Inhabited

namespace Token

/-- The end of a source of `line` lines. -/
def eof (line : Nat) : Token := ⟨.eof, "", line⟩

/-- Whether the token marks the end of the source. -/
def isEof (token : Token) : Bool := token.kind == .eof

/-- The token as messages show it. -/
def text (token : Token) : String :=
  "[ '" ++ token.value ++ "' -> " ++ token.kind.text ++ " (" ++ toString token.line ++ ") ]"

/-- Whether the token is the keyword or operator `word`. -/
def isWord (token : Token) (word : String) : Bool :=
  (token.kind == .identifier || token.kind == .operator) && token.value == word

end Token

end ChainIR
