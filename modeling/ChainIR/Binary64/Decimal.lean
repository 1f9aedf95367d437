import ChainIR.Binary64.Basic

/-! # The nearest double of a decimal number

A decimal number is a natural number times a power of ten. `Binary64.ofDecimal` rounds it to the
nearest double, a tie going to the even code, and a magnitude past the largest finite one to
infinity. All of it is exact arithmetic on natural numbers. -/

namespace ChainIR

/-- The quotient rounded to the nearest natural number, a tie going to the even one. -/
def roundQuotient (numerator denominator : Nat) : Nat :=
  let quotient := numerator / denominator
  let remainder := numerator % denominator
  if 2 * remainder < denominator then quotient
  else if denominator < 2 * remainder then quotient + 1
  else quotient + quotient % 2

namespace Binary64

/-- The code of the double nearest to `numerator / denominator` units. Among the magnitudes of
one size the codes are equally spaced, so rounding in the spacing of the quotient rounds the
code; a rounding up past the largest of them gives the first of the next size. -/
def nearestCode (numerator denominator : Nat) : Nat :=
  let shift := (numerator / denominator).log2 - 52
  shift * binade + roundQuotient numerator (denominator * Nat.pow 2 shift)

/-- The finite number of a code, or infinity if the code is too large. -/
def ofCode (negative : Bool) (code : Nat) : Binary64 :=
  if finite : code < codeLimit then .finite negative ⟨code, finite⟩ else .infinite negative

/-- The double nearest to `digits * 10 ^ exponent`. Numbers of more than 400 digits before the
point are infinite and numbers with more than 400 zeros after the point are zero, so no large
power is computed for them. -/
def ofDecimal (negative : Bool) (digits : Nat) (exponent : Int) : Binary64 :=
  let magnitude := exponent + (Nat.toDigits 10 digits).length
  if digits = 0 then ofCode negative 0
  else if 400 < magnitude then .infinite negative
  else if magnitude < -400 then ofCode negative 0
  else
    ofCode negative
      (nearestCode (digits * Nat.pow 10 exponent.toNat * Nat.pow 2 1074)
        (Nat.pow 10 (-exponent).toNat))

end Binary64

end ChainIR
