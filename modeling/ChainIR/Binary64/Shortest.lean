import ChainIR.Binary64.Decimal

/-! # Shortest decimal text of doubles

A finite double is written with the fewest significant digits that round back to it, without an
exponent. On the grid of decimals with a given number of digits only the two neighbours of the
exact value can be the nearest ones that round back; of two that do, the nearer is taken, and
the upper one if both are equally near. -/

namespace ChainIR.Binary64

/-- The exact magnitude of rank `code` times `10 ^ 1074`, a natural number. -/
def expansion (code : Nat) : Nat := units code * Nat.pow 5 1074

/-- A decimal number `digits * 10 ^ exponent`. -/
structure Decimal where
  /-- The digits as one number. -/
  digits : Nat
  /-- The power of ten. -/
  exponent : Int
  deriving DecidableEq

/-- Whether a decimal number rounds to the magnitude of rank `code`. -/
def Decimal.roundsTo (decimal : Decimal) (code : Nat) : Bool :=
  ofDecimal false decimal.digits decimal.exponent = ofCode false code

/-- The one of two neighbours that rounds back, the lower one of two if it is `nearer` and the
upper one otherwise. -/
def Decimal.roundingBack? (below above : Decimal) (nearer : Bool) (code : Nat) : Option Decimal :=
  match below.roundsTo code, above.roundsTo code with
  | true, true => some (if nearer then below else above)
  | true, false => some below
  | false, true => some above
  | false, false => none

/-- The neighbour of the exact value that drops its last `dropped` digits and rounds back,
`none` if neither does. -/
def neighbour? (code dropped : Nat) : Option Decimal :=
  let exact := expansion code
  let spacing := Nat.pow 10 dropped
  let below : Decimal := ⟨exact / spacing, dropped - 1074⟩
  let above : Decimal := ⟨exact / spacing + 1, dropped - 1074⟩
  below.roundingBack? above (2 * (exact % spacing) < spacing) code

/-- The first neighbour that rounds back while `dropped` counts down; the exact value if there
is none. -/
def shortestFrom (code : Nat) : Nat → Nat → Decimal
  | 0, _ => ⟨expansion code, -1074⟩
  | tries + 1, dropped => (neighbour? code dropped).getD (shortestFrom code tries (dropped - 1))

/-- The decimal with the fewest digits that rounds to the magnitude of rank `code`. Seventeen
digits always suffice. -/
def shortest (code : Nat) : Decimal :=
  shortestFrom code 17 ((Nat.toDigits 10 (expansion code)).length - 1)

/-- The digits of a decimal number without trailing zeros, and the power of ten that then
belongs to them. -/
def Decimal.trimmed (decimal : Decimal) : List Char × Int :=
  let digits := Nat.toDigits 10 decimal.digits
  let zeros := (digits.reverse.takeWhile (· == '0')).length
  (digits.take (digits.length - zeros), decimal.exponent + zeros)

/-- Digits times a power of ten, written with a point and no exponent. -/
def positional (digits : List Char) (exponent : Int) : List Char :=
  let places := (-exponent).toNat
  if 0 ≤ exponent then digits ++ List.replicate exponent.toNat '0'
  else if places < digits.length then
    digits.take (digits.length - places) ++ '.' :: digits.drop (digits.length - places)
  else '0' :: '.' :: List.replicate (places - digits.length) '0' ++ digits

/-- The text of the magnitude of rank `code`. -/
def magnitudeText (code : Nat) : List Char :=
  if code = 0 then ['0']
  else
    let (digits, exponent) := (shortest code).trimmed
    positional digits exponent

/-- The sign of a number as written. -/
def signText (negative : Bool) : List Char := if negative then ['-'] else []

/-- The text of a number. -/
def text : Binary64 → List Char
  | nan => ['N', 'a', 'N']
  | infinite negative => signText negative ++ ['i', 'n', 'f']
  | finite negative code => signText negative ++ magnitudeText code

end ChainIR.Binary64
