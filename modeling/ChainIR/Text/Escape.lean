/-! # Escape sequences in literals

Inside a literal a control character, a backslash or a double quote is written as a backslash
and a letter. `Escape.encode` writes these sequences and `Escape.decode` resolves them; a
backslash before any other character stands for itself, and so does one at the very end. -/

namespace ChainIR.Escape

/-- The escape letters with the characters that they stand for. -/
def sequences : List (Char × Char) :=
  [('a', '\x07'), ('b', '\x08'), ('t', '\t'), ('n', '\n'), ('v', '\x0b'), ('f', '\x0c'),
    ('r', '\x0d'), ('\\', '\\'), ('"', '"')]

/-- The character that an escape letter stands for. -/
def characterOf? (letter : Char) : Option Char :=
  (sequences.find? fun sequence => sequence.1 == letter).map Prod.snd

/-- The escape letter of a character, `none` if the character is written as it is. -/
def letterOf? (character : Char) : Option Char :=
  (sequences.find? fun sequence => sequence.2 == character).map Prod.fst

/-- Write every character that has an escape letter as a backslash and that letter. -/
def encode : List Char → List Char
  | [] => []
  | c :: rest =>
    match letterOf? c with
    | some letter => '\\' :: letter :: encode rest
    | none => c :: encode rest

/-- Resolve escape sequences from left to right; an unknown sequence is kept as it is. -/
def decode : List Char → List Char
  | [] => []
  | ['\\'] => ['\\']
  | '\\' :: letter :: rest =>
    match characterOf? letter with
    | some c => c :: decode rest
    | none => '\\' :: letter :: decode rest
  | c :: rest => c :: decode rest

/-- `encode` on strings. -/
def encodeString (text : String) : String := String.ofList (encode text.toList)

/-- `decode` on strings. -/
def decodeString (text : String) : String := String.ofList (decode text.toList)

end ChainIR.Escape
