import Mathlib
import ChainIR.Binary64.Shortest

/-! # Decimals that round back

The nearest double of a decimal number depends on its value alone (`ofDecimal_scale`), and a
decimal number that is a double is rounded to it (`nearestCode_units`). So the decimal number
that `shortest` finds rounds to the magnitude that it is found for, also where no shorter one
does (`ofDecimal_shortest`). -/

namespace ChainIR

/-! ## Rounding and scaling -/

/-- Rounding a quotient depends on its value alone. -/
theorem roundQuotient_mul {factor : Nat} (h : 0 < factor) (numerator denominator : Nat) :
    roundQuotient (factor * numerator) (factor * denominator) =
      roundQuotient numerator denominator := by
  have hless : ∀ left right, factor * left < factor * right ↔ left < right := fun left right =>
    Nat.mul_lt_mul_left h
  rw [roundQuotient, roundQuotient, Nat.mul_div_mul_left _ _ h, Nat.mul_mod_mul_left,
    Nat.mul_left_comm 2 factor]
  simp only [hless]

namespace Binary64

/-- Rounding to a code depends on the value alone. -/
theorem nearestCode_mul {factor : Nat} (h : 0 < factor) (numerator denominator : Nat) :
    nearestCode (factor * numerator) (factor * denominator) =
      nearestCode numerator denominator := by
  rw [nearestCode, nearestCode, Nat.mul_div_mul_left _ _ h, Nat.mul_assoc,
    roundQuotient_mul h]

/-- Rounding to a code depends on the value alone. -/
theorem nearestCode_congr {numerator denominator numerator' denominator' : Nat}
    (h : 0 < denominator) (h' : 0 < denominator')
    (hcross : numerator * denominator' = numerator' * denominator) :
    nearestCode numerator denominator = nearestCode numerator' denominator' := by
  rw [← nearestCode_mul h' numerator denominator, ← nearestCode_mul h numerator' denominator',
    Nat.mul_comm denominator' numerator, hcross, Nat.mul_comm numerator' denominator,
    Nat.mul_comm denominator' denominator]

/-- The digits of a number with a zero behind it. -/
theorem toDigits_mul_ten {n : Nat} (h : 0 < n) :
    Nat.toDigits 10 (n * 10) = Nat.toDigits 10 n ++ ['0'] := by
  rw [Nat.toDigits_of_base_le (by decide) (by omega), Nat.mul_div_cancel _ (by decide),
    Nat.mul_mod_left]
  rfl

/-- The digits of a number with zeros behind it. -/
theorem toDigits_mul_pow {n : Nat} (h : 0 < n) (count : Nat) :
    Nat.toDigits 10 (n * 10 ^ count) = Nat.toDigits 10 n ++ List.replicate count '0' := by
  induction count with
  | zero => simp
  | succ count ih =>
    rw [pow_succ, ← Nat.mul_assoc, toDigits_mul_ten (by positivity), ih, List.append_assoc,
      List.replicate_succ']

/-- No digits are zero. -/
theorem ofDecimal_zero (negative : Bool) (exponent : Int) :
    ofDecimal negative 0 exponent = ofCode negative 0 := by
  simp [ofDecimal]

/-- The nearest double depends on the value alone. -/
theorem ofDecimal_scale (negative : Bool) (digits count : Nat) (exponent : Int) :
    ofDecimal negative (digits * 10 ^ count) exponent =
      ofDecimal negative digits (exponent + count) := by
  rcases Nat.eq_zero_or_pos digits with rfl | hpos
  · rw [Nat.zero_mul, ofDecimal_zero, ofDecimal_zero]
  have hne : digits * 10 ^ count ≠ 0 := by positivity
  -- both sides are the same fraction, written with other powers of ten
  have hcode : nearestCode (digits * 10 ^ count * Nat.pow 10 exponent.toNat * Nat.pow 2 1074)
        (Nat.pow 10 (-exponent).toNat) =
      nearestCode (digits * Nat.pow 10 (exponent + count).toNat * Nat.pow 2 1074)
        (Nat.pow 10 (-(exponent + count)).toNat) := by
    have hexponents : count + exponent.toNat + (-(exponent + count)).toNat =
        (exponent + count).toNat + (-exponent).toNat := by omega
    generalize Nat.pow 2 1074 = two
    simp only [Nat.pow_eq]
    refine nearestCode_congr (by positivity) (by positivity) ?_
    calc digits * 10 ^ count * 10 ^ exponent.toNat * two * 10 ^ (-(exponent + count)).toNat
        = digits * two * 10 ^ (count + exponent.toNat + (-(exponent + count)).toNat) := by
          rw [pow_add, pow_add]
          ring
      _ = digits * 10 ^ (exponent + count).toNat * two * 10 ^ (-exponent).toNat := by
          rw [hexponents, pow_add]
          ring
  have hlength : exponent + (Nat.toDigits 10 (digits * 10 ^ count)).length =
      exponent + count + (Nat.toDigits 10 digits).length := by
    rw [toDigits_mul_pow hpos, List.length_append, List.length_replicate]
    push_cast
    ring
  rw [ofDecimal, ofDecimal]
  simp only [hne, hpos.ne', hlength, hcode]

/-- The sign does not change the magnitude. -/
theorem ofDecimal_sign {digits : Nat} {exponent : Int} {code : Fin codeLimit}
    (h : ofDecimal false digits exponent = .finite false code) (negative : Bool) :
    ofDecimal negative digits exponent = .finite negative code := by
  have hcode : ∀ other, ofCode false other = .finite false code →
      ofCode negative other = .finite negative code := by
    intro other hother
    rw [ofCode] at hother ⊢
    split at hother
    · next hfinite =>
      obtain rfl : (⟨other, hfinite⟩ : Fin codeLimit) = code := by simpa using hother
      rw [dif_pos hfinite]
    · exact nomatch hother
  rw [ofDecimal] at h ⊢
  split_ifs at h ⊢
  · exact hcode 0 h
  · exact hcode 0 h
  · exact hcode _ h

/-! ## Doubles in units -/

/-- A quotient without remainder is rounded to itself. -/
theorem roundQuotient_mul_right (quotient : Nat) {denominator : Nat} (h : 0 < denominator) :
    roundQuotient (quotient * denominator) denominator = quotient := by
  rw [roundQuotient, Nat.mul_mod_left, Nat.mul_div_cancel _ h]
  simp [h]

/-- A magnitude is a number of 53 bits at most, shifted; it has all of them if it is. -/
theorem units_eq (code : Nat) : ∃ shift mantissa, units code = mantissa * 2 ^ shift ∧
    code = shift * binade + mantissa ∧ mantissa < 2 ^ 53 ∧ (shift = 0 ∨ 2 ^ 52 ≤ mantissa) := by
  have hbinade : binade = 2 ^ 52 := by norm_num
  refine ⟨code / binade - 1, code - (code / binade - 1) * binade, rfl, ?_⟩
  rw [hbinade]
  have hdivision := Nat.div_add_mod code (2 ^ 52)
  have hrest := Nat.mod_lt code (show 0 < 2 ^ 52 by positivity)
  generalize code / 2 ^ 52 = quotient at *
  generalize code % 2 ^ 52 = rest at *
  obtain _ | quotient := quotient
  · omega
  · rw [Nat.add_sub_cancel]
    omega

/-- A magnitude is rounded to its own code. -/
theorem nearestCode_units (code : Nat) : nearestCode (units code) 1 = code := by
  obtain ⟨shift, mantissa, hunits, hcode, hlt, hnormal⟩ := units_eq code
  have hlog : (units code / 1).log2 - 52 = shift := by
    rw [Nat.div_one, hunits]
    rcases hnormal with rfl | hnormal
    · rw [pow_zero, Nat.mul_one]
      rcases Nat.eq_zero_or_pos mantissa with rfl | hpos
      · rfl
      · have := (Nat.log2_lt hpos.ne').2 hlt
        omega
    · have hpos : mantissa * 2 ^ shift ≠ 0 := by positivity
      have : (mantissa * 2 ^ shift).log2 = 52 + shift := by
        rw [Nat.log2_eq_iff hpos, pow_add, show 52 + shift + 1 = 53 + shift by omega, pow_add]
        exact ⟨Nat.mul_le_mul_right _ hnormal, Nat.mul_lt_mul_of_pos_right hlt (by positivity)⟩
      omega
  rw [nearestCode, hlog, Nat.one_mul, hunits, show Nat.pow 2 shift = 2 ^ shift from rfl,
    roundQuotient_mul_right _ (by positivity), hcode]

/-- A magnitude that is written with a power of ten for its unit is rounded to its own code. -/
theorem nearestCode_scaled (code : Nat) {exponent : Int} {scale : Nat}
    (hwhole : exponent.toNat = 0) (hscale : (-exponent).toNat = scale) :
    nearestCode (units code * Nat.pow 5 scale * Nat.pow 10 exponent.toNat * Nat.pow 2 scale)
      (Nat.pow 10 (-exponent).toNat) = code := by
  rw [hwhole, hscale]
  have hten : 5 ^ scale * 2 ^ scale = 10 ^ scale := (Nat.mul_pow 5 2 scale).symm
  calc nearestCode (units code * 5 ^ scale * 10 ^ 0 * 2 ^ scale) (10 ^ scale)
      = nearestCode (units code) 1 := by
        refine nearestCode_congr (by positivity) (by decide) ?_
        rw [← hten]
        ring
    _ = code := nearestCode_units code

/-- Magnitudes are below `2 ^ 2098` units. -/
theorem units_lt {code top : Nat} (h : code < codeLimit) (htop : 2098 ≤ top) :
    units code < Nat.pow 2 top := by
  obtain ⟨shift, mantissa, hunits, hcode, hlt, hnormal⟩ := units_eq code
  have hshift : shift ≤ 2045 := by
    rw [binade] at hcode
    rw [codeLimit] at h
    omega
  calc units code = mantissa * 2 ^ shift := hunits
    _ < 2 ^ 53 * 2 ^ shift := Nat.mul_lt_mul_of_pos_right hlt (by positivity)
    _ = 2 ^ (53 + shift) := (pow_add 2 53 shift).symm
    _ ≤ Nat.pow 2 top := Nat.pow_le_pow_right (by decide) (by omega)

/-- A number from a power of ten on has more digits than the exponent. -/
theorem lt_length_toDigits {n count : Nat} (h : Nat.pow 10 count ≤ n) :
    count < (Nat.toDigits 10 n).length := by
  obtain _ | count := count
  · exact List.length_pos_iff.2 (by simp)
  · exact Nat.lt_of_not_le fun hle =>
      Nat.not_lt_of_le h ((Nat.length_toDigits_le_iff (by decide) (by omega)).1 hle)

/-- A number below a power of ten has at most as many digits as the exponent. -/
theorem length_toDigits_le {n count : Nat} (hcount : 0 < count) (h : n < Nat.pow 10 count) :
    (Nat.toDigits 10 n).length ≤ count :=
  (Nat.length_toDigits_le_iff (by decide) hcount).2 h

/-- Magnitudes above zero are whole numbers of units. -/
theorem units_pos {code : Nat} (hpos : 0 < code) : 0 < units code := by
  obtain ⟨shift, mantissa, hunits, hcode, -, hnormal⟩ := units_eq code
  have : 0 < mantissa := by
    rcases hnormal with rfl | hnormal <;> omega
  rw [hunits]
  positivity

/-- The digits of a magnitude above zero are no fewer than those of the smallest one. -/
theorem lt_length_expansion {code count : Nat} (hpos : 0 < code)
    (hcount : Nat.pow 10 count ≤ Nat.pow 5 1074) :
    count < (Nat.toDigits 10 (expansion code)).length :=
  lt_length_toDigits (hcount.trans (Nat.le_mul_of_pos_left _ (units_pos hpos)))

/-- The digits of a magnitude are no more than those of a bound on all of them. -/
theorem length_expansion_le {code top count : Nat} (hlimit : code < codeLimit) (htop : 2098 ≤ top)
    (hpos : 0 < count) (hcount : Nat.pow 2 top * Nat.pow 5 1074 ≤ Nat.pow 10 count) :
    (Nat.toDigits 10 (expansion code)).length ≤ count := by
  have hfive : ∀ count, 0 < Nat.pow 5 count := fun count => Nat.pow_pos (by decide)
  have hlt : expansion code < Nat.pow 2 top * Nat.pow 5 1074 :=
    Nat.mul_lt_mul_of_pos_right (units_lt hlimit htop) (hfive 1074)
  exact length_toDigits_le hpos (hlt.trans_le hcount)

/-! ## Decimals of a magnitude -/

/-- The exact decimal value of a magnitude rounds to it. -/
theorem ofDecimal_expansion {code : Nat} (hpos : 0 < code) (hlimit : code < codeLimit) :
    ofDecimal false (expansion code) (-1074) = ofCode false code := by
  have hlower : 673 < (Nat.toDigits 10 (expansion code)).length :=
    lt_length_expansion hpos (by decide +kernel)
  have hupper : (Nat.toDigits 10 (expansion code)).length ≤ 1474 :=
    @length_expansion_le _ 2098 _ hlimit le_rfl (by decide) (by decide +kernel)
  have hfive : ∀ count, 0 < Nat.pow 5 count := fun count => Nat.pow_pos (by decide)
  have hne : expansion code ≠ 0 := (Nat.mul_pos (units_pos hpos) (hfive 1074)).ne'
  rw [ofDecimal, if_neg hne, if_neg (by omega), if_neg (by omega), expansion]
  -- the scale gets a name, so that its powers are not computed
  obtain ⟨scale, hscale⟩ : ∃ scale, 1074 = scale := ⟨_, rfl⟩
  have hneg : (-(-1074) : Int).toNat = scale := hscale
  rw [hscale, nearestCode_scaled code rfl hneg]

/-- Of two neighbours one is found that rounds back. -/
theorem Decimal.roundsTo_of_roundingBack? {below above decimal : Decimal} {nearer : Bool}
    {code : Nat} (h : below.roundingBack? above nearer code = some decimal) :
    decimal.roundsTo code = true := by
  rw [roundingBack?] at h
  split at h
  · next hbelow habove =>
    split at h
    · exact Option.some.inj h ▸ hbelow
    · exact Option.some.inj h ▸ habove
  · next hbelow _ => exact Option.some.inj h ▸ hbelow
  · next _ habove => exact Option.some.inj h ▸ habove
  · exact nomatch h

/-- **The shortest decimal rounds back**: the decimal number that is found for a magnitude rounds to
it. -/
theorem ofDecimal_shortest {code : Nat} (hpos : 0 < code) (hlimit : code < codeLimit) :
    ofDecimal false (shortest code).digits (shortest code).exponent = ofCode false code := by
  have hneighbour : ∀ dropped decimal, neighbour? code dropped = some decimal →
      ofDecimal false decimal.digits decimal.exponent = ofCode false code := by
    intro dropped decimal hfound
    rw [neighbour?] at hfound
    exact of_decide_eq_true (Decimal.roundsTo_of_roundingBack? hfound)
  have hfrom : ∀ tries dropped, ofDecimal false (shortestFrom code tries dropped).digits
      (shortestFrom code tries dropped).exponent = ofCode false code := by
    intro tries
    induction tries with
    | zero => exact fun _ => ofDecimal_expansion hpos hlimit
    | succ tries ih =>
      intro dropped
      rw [shortestFrom]
      cases hfound : neighbour? code dropped with
      | none => exact ih (dropped - 1)
      | some decimal => exact hneighbour dropped decimal hfound
  rw [shortest]
  exact hfrom 17 _

end Binary64

end ChainIR
