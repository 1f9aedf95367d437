import ChainIR.Binary64.Decimal

/-! # Numerals: the written forms of doubles

A numeral is an optional sign followed by `inf`, `infinity` or `nan` in any case, or by decimal
digits with an optional point and an optional exponent. At least one digit stands before the
exponent and at least one in it. `Binary64.ofNumeral?` reads a numeral. -/

namespace ChainIR.Binary64

/-- Take an optional sign off the front; `true` is a minus. -/
def splitSign : List Char → Bool × List Char
  | '-' :: rest => (true, rest)
  | '+' :: rest => (false, rest)
  | rest => (false, rest)

/-- Take an optional point and the digits behind it off the front. -/
def splitFraction : List Char → List Char × List Char
  | '.' :: rest => (rest.takeWhile Char.isDigit, rest.dropWhile Char.isDigit)
  | rest => ([], rest)

/-- The value of an optional exponent that must be all of the text. -/
def exponent? : List Char → Option Int
  | [] => some 0
  | mark :: rest =>
    let (negative, digits) := splitSign rest
    if (mark = 'e' ∨ mark = 'E') ∧ digits ≠ [] ∧ digits.all Char.isDigit then
      let magnitude := Nat.ofDigitChars 10 digits 0
      some (if negative then -(magnitude : Int) else magnitude)
    else none

/-- Read decimal digits with an optional point and an optional exponent. -/
def ofDigits? (negative : Bool) (text : List Char) : Option Binary64 :=
  let whole := text.takeWhile Char.isDigit
  let (fraction, rest) := splitFraction (text.dropWhile Char.isDigit)
  if whole = [] ∧ fraction = [] then none
  else
    (exponent? rest).map fun exponent =>
      ofDecimal negative (Nat.ofDigitChars 10 (whole ++ fraction) 0) (exponent - fraction.length)

/-- Read a numeral. -/
def ofNumeral? (text : List Char) : Option Binary64 :=
  let (negative, rest) := splitSign text
  let word := rest.map Char.toLower
  if word = ['i', 'n', 'f'] ∨ word = ['i', 'n', 'f', 'i', 'n', 'i', 't', 'y'] then
    some (.infinite negative)
  else if word = ['n', 'a', 'n'] then some .nan
  else ofDigits? negative rest

end ChainIR.Binary64
