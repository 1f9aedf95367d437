/-! # Double precision numbers

`Binary64` holds the 64-bit floating point numbers as data: there is no arithmetic on them here,
only their bit patterns, their comparison and their exact values. A finite magnitude is its rank
among the finite magnitudes, the `code`, which is also its bit pattern without the sign. The
magnitude is a whole number of `2 ^ (-1074)`, given by `Binary64.units`. -/

namespace ChainIR

/-- The number of finite magnitudes, and the bit pattern of infinity. -/
abbrev Binary64.codeLimit : Nat := 0x7FF0000000000000

/-- A 64-bit floating point number; all NaNs are one. -/
inductive Binary64
  /-- Not a number. -/
  | nan
  /-- An infinity. -/
  | infinite (negative : Bool)
  /-- The finite number whose magnitude has the rank `code`. -/
  | finite (negative : Bool) (code : Fin Binary64.codeLimit)
  deriving DecidableEq

namespace Binary64

/-- The bit pattern of the sign bit alone. -/
abbrev signBit : Nat := 0x8000000000000000

/-- The number of codes of one exponent. -/
abbrev binade : Nat := 0x10000000000000

/-- The number with a bit pattern below the sign bit; patterns above infinity are NaN. -/
def ofMagnitude (negative : Bool) (magnitude : Nat) : Binary64 :=
  if finite : magnitude < codeLimit then .finite negative ⟨magnitude, finite⟩
  else if magnitude = codeLimit then .infinite negative
  else .nan

/-- The number with a bit pattern. -/
def ofBits (bits : UInt64) : Binary64 :=
  ofMagnitude (signBit ≤ bits.toNat) (bits.toNat % signBit)

/-- The bit pattern of the sign. -/
def signBits (negative : Bool) : Nat := if negative then signBit else 0

/-- The bit pattern of a number, a quiet one for NaN. -/
def toBits : Binary64 → UInt64
  | nan => .ofNat 0x7FF8000000000000
  | infinite negative => .ofNat (signBits negative + codeLimit)
  | finite negative code => .ofNat (signBits negative + code)

/-- The magnitude of rank `code` as a multiple of `2 ^ (-1074)`. -/
def units (code : Nat) : Nat :=
  let shift := code / binade - 1
  (code - shift * binade) * Nat.pow 2 shift

/-- Numeric equality: NaN differs from itself and the two zeros are equal. -/
def equals : Binary64 → Binary64 → Bool
  | nan, _ => false
  | _, nan => false
  | finite left code, finite right other =>
    code = other && (left == right || code.val == 0)
  | left, right => left == right

end Binary64

end ChainIR
