import Mathlib
import ChainIR.Binary64.Numeral
import ChainIR.Proofs.Binary64.Decimal

/-! # Numerals read back

The text of a double is a numeral, and reading it gives the double again (`ofNumeral?_text`):
the sign and the words are read as written, and the digits of a finite magnitude are the ones
of a decimal number that rounds to it (`ofDecimal_shortest`). -/

namespace ChainIR.Binary64

/-! ## Digits -/

/-- A text of digits is taken off as a whole. -/
theorem takeWhile_isDigit_append {digits : List Char} (hdigits : ∀ c ∈ digits, c.isDigit)
    (rest : List Char) : (digits ++ rest).takeWhile Char.isDigit =
      digits ++ rest.takeWhile Char.isDigit :=
  List.takeWhile_append_of_pos hdigits

/-- A text of digits is taken off as a whole. -/
theorem dropWhile_isDigit_append {digits : List Char} (hdigits : ∀ c ∈ digits, c.isDigit)
    (rest : List Char) : (digits ++ rest).dropWhile Char.isDigit =
      rest.dropWhile Char.isDigit :=
  List.dropWhile_append_of_pos hdigits

/-- Digits with no point read as a whole number. -/
theorem ofDigits?_whole (negative : Bool) {digits : List Char} (hne : digits ≠ [])
    (hdigits : ∀ c ∈ digits, c.isDigit) :
    ofDigits? negative digits = some (ofDecimal negative (Nat.ofDigitChars 10 digits 0) 0) := by
  have htake := takeWhile_isDigit_append hdigits []
  have hdrop := dropWhile_isDigit_append hdigits []
  rw [List.append_nil, List.takeWhile_nil, List.append_nil] at htake
  rw [List.append_nil, List.dropWhile_nil] at hdrop
  simp [ofDigits?, htake, hdrop, splitFraction, exponent?, hne]

/-- Digits with a point read as a fraction. -/
theorem ofDigits?_point (negative : Bool) {whole fraction : List Char} (hne : whole ≠ [])
    (hwhole : ∀ c ∈ whole, c.isDigit) (hfraction : ∀ c ∈ fraction, c.isDigit) :
    ofDigits? negative (whole ++ '.' :: fraction) =
      some (ofDecimal negative (Nat.ofDigitChars 10 (whole ++ fraction) 0)
        (-(fraction.length : Int))) := by
  have htake := takeWhile_isDigit_append hwhole ('.' :: fraction)
  have hdrop := dropWhile_isDigit_append hwhole ('.' :: fraction)
  have htake' := takeWhile_isDigit_append hfraction []
  have hdrop' := dropWhile_isDigit_append hfraction []
  rw [List.takeWhile_cons_of_neg (by decide), List.append_nil] at htake
  rw [List.dropWhile_cons_of_neg (by decide)] at hdrop
  rw [List.append_nil, List.takeWhile_nil, List.append_nil] at htake'
  rw [List.append_nil, List.dropWhile_nil] at hdrop'
  simp [ofDigits?, htake, hdrop, htake', hdrop', splitFraction, exponent?, hne]

/-- Positional text reads as the decimal number that it writes. -/
theorem ofDigits?_positional (negative : Bool) {digits : List Char} (hne : digits ≠ [])
    (hdigits : ∀ c ∈ digits, c.isDigit) (exponent : Int) :
    ofDigits? negative (positional digits exponent) =
      some (ofDecimal negative (Nat.ofDigitChars 10 digits 0) exponent) := by
  have hzeros : ∀ count, ∀ c ∈ List.replicate count '0', c.isDigit := fun count c hc =>
    List.eq_of_mem_replicate hc ▸ rfl
  rw [positional]
  split_ifs with hsign hinside
  · -- zeros behind the digits make up for a positive exponent
    rw [ofDigits?_whole negative (by simp [hne])
      (List.forall_mem_append.2 ⟨hdigits, hzeros _⟩), Nat.ofDigitChars_append,
      Nat.ofDigitChars_replicate_zero, Nat.mul_comm, ofDecimal_scale, zero_add,
      Int.toNat_of_nonneg hsign]
  · -- the point stands inside the digits
    have hlength : (digits.drop (digits.length - (-exponent).toNat)).length =
        (-exponent).toNat := by
      rw [List.length_drop]
      omega
    rw [ofDigits?_point negative, List.take_append_drop, hlength]
    · rw [Int.toNat_of_nonneg (by omega), neg_neg]
    · exact List.ne_nil_of_length_pos (by rw [List.length_take]; omega)
    · exact fun c hc => hdigits c (List.mem_of_mem_take hc)
    · exact fun c hc => hdigits c (List.mem_of_mem_drop hc)
  · -- zeros between the point and the digits
    have hlength : (List.replicate ((-exponent).toNat - digits.length) '0' ++ digits).length =
        (-exponent).toNat := by
      rw [List.length_append, List.length_replicate]
      omega
    have hread := ofDigits?_point negative (List.cons_ne_nil '0' [])
      (hzeros 1)
      (List.forall_mem_append.2 ⟨hzeros ((-exponent).toNat - digits.length), hdigits⟩)
    rw [hlength, Int.toNat_of_nonneg (by omega), neg_neg, Nat.ofDigitChars_append,
      Nat.ofDigitChars_append, Nat.ofDigitChars_replicate_zero,
      show Nat.ofDigitChars 10 ['0'] 0 = 0 from rfl, Nat.mul_zero] at hread
    exact hread

/-- The digits of a decimal number are its trimmed ones with zeros behind them. -/
theorem Decimal.toDigits_trimmed (decimal : Decimal) : ∃ zeros : Nat,
    Nat.toDigits 10 decimal.digits = decimal.trimmed.1 ++ List.replicate zeros '0' ∧
      decimal.trimmed.2 = decimal.exponent + zeros := by
  rw [trimmed]
  generalize Nat.toDigits 10 decimal.digits = digits
  have hzeros : digits.reverse.takeWhile (· == '0') =
      List.replicate (digits.reverse.takeWhile (· == '0')).length '0' :=
    List.eq_replicate_of_mem fun c hc => by simpa using List.mem_takeWhile_imp hc
  refine ⟨(digits.reverse.takeWhile (· == '0')).length, ?_, rfl⟩
  have hsplit := congrArg List.reverse
    (List.takeWhile_append_dropWhile (p := (· == '0')) (l := digits.reverse))
  rw [List.reverse_append, List.reverse_reverse, hzeros, List.reverse_replicate] at hsplit
  generalize (digits.reverse.takeWhile (· == '0')).length = zeros at *
  generalize (digits.reverse.dropWhile (· == '0')).reverse = kept at *
  rw [← hsplit, List.length_append, List.length_replicate, Nat.add_sub_cancel, List.take_left']
  rfl

/-- The trimmed digits are digits. -/
theorem Decimal.isDigit_of_mem_trimmed (decimal : Decimal) {c : Char}
    (h : c ∈ decimal.trimmed.1) : c.isDigit := by
  obtain ⟨zeros, hdigits, -⟩ := decimal.toDigits_trimmed
  exact Nat.isDigit_of_mem_toDigits (by decide) (by decide)
    (hdigits ▸ List.mem_append_left _ h : c ∈ Nat.toDigits 10 decimal.digits)

/-- The trimmed digits of a positive decimal number write it. -/
theorem ofDigits?_trimmed (negative : Bool) {decimal : Decimal} (hpos : 0 < decimal.digits) :
    ofDigits? negative (positional decimal.trimmed.1 decimal.trimmed.2) =
      some (ofDecimal negative decimal.digits decimal.exponent) := by
  obtain ⟨zeros, hdigits, hexponent⟩ := decimal.toDigits_trimmed
  have hvalue : decimal.digits = Nat.ofDigitChars 10 decimal.trimmed.1 0 * 10 ^ zeros :=
    calc decimal.digits = Nat.ofDigitChars 10 (Nat.toDigits 10 decimal.digits) 0 :=
          Nat.ofDigitChars_ten_toDigits.symm
      _ = Nat.ofDigitChars 10 decimal.trimmed.1 0 * 10 ^ zeros := by
          rw [hdigits, Nat.ofDigitChars_append, Nat.ofDigitChars_replicate_zero, Nat.mul_comm]
  have hne : decimal.trimmed.1 ≠ [] := by
    intro hnil
    rw [hnil, Nat.ofDigitChars_nil, Nat.zero_mul] at hvalue
    exact hpos.ne' hvalue
  rw [ofDigits?_positional negative hne fun c hc => decimal.isDigit_of_mem_trimmed hc, hexponent,
    hvalue, ofDecimal_scale]

/-- The text of a finite magnitude reads as it, with any sign. -/
theorem ofDigits?_magnitudeText (negative : Bool) (code : Fin codeLimit) :
    ofDigits? negative (magnitudeText code) = some (.finite negative code) := by
  rw [magnitudeText]
  split_ifs with hzero
  · obtain ⟨code, hlimit⟩ := code
    obtain rfl : code = 0 := hzero
    rw [ofDigits?_whole negative (List.cons_ne_nil _ _) (fun c hc => List.mem_singleton.1 hc ▸ rfl),
      show Nat.ofDigitChars 10 ['0'] 0 = 0 from rfl, ofDecimal_zero, ofCode, dif_pos hlimit]
  · have hshortest := ofDecimal_shortest (Nat.pos_of_ne_zero hzero) code.isLt
    rw [ofCode, dif_pos code.isLt] at hshortest
    have hpos : 0 < (shortest code).digits := by
      refine Nat.pos_of_ne_zero fun h => hzero ?_
      rw [h, ofDecimal_zero, ofCode, dif_pos (Nat.zero_lt_of_lt code.isLt)] at hshortest
      injection hshortest with _ hcode
      exact congrArg Fin.val hcode.symm
    rw [ofDigits?_trimmed negative hpos, ofDecimal_sign hshortest]

/-! ## Texts of numbers -/

/-- The characters that texts of numbers have besides digits. -/
def letters : List Char := ['-', '.', 'N', 'a', 'i', 'n', 'f']

/-- Positional text has digits and a point. -/
theorem mem_positional {digits : List Char} (hdigits : ∀ c ∈ digits, c.isDigit) (exponent : Int)
    {c : Char} (h : c ∈ positional digits exponent) : c.isDigit ∨ c ∈ letters := by
  have hzeros : ∀ {count}, c ∈ List.replicate count '0' → c.isDigit := fun hc =>
    List.eq_of_mem_replicate hc ▸ rfl
  rw [positional] at h
  split_ifs at h
  · exact .inl ((List.mem_append.1 h).elim (hdigits c) hzeros)
  · rcases List.mem_append.1 h with hc | hc
    · exact .inl (hdigits c (List.mem_of_mem_take hc))
    · rcases List.mem_cons.1 hc with rfl | hc
      · exact .inr (by decide)
      · exact .inl (hdigits c (List.mem_of_mem_drop hc))
  · rw [List.cons_append, List.cons_append] at h
    rcases List.mem_cons.1 h with rfl | hc
    · exact .inl rfl
    · rcases List.mem_cons.1 hc with rfl | hc
      · exact .inr (by decide)
      · exact .inl ((List.mem_append.1 hc).elim hzeros (hdigits c))

/-- The text of a number has digits and a few letters and marks. -/
theorem mem_text {value : Binary64} {c : Char} (h : c ∈ value.text) :
    c.isDigit ∨ c ∈ letters := by
  have hsign : ∀ {negative}, c ∈ signText negative → c ∈ letters := by
    rintro (_ | _) hc
    · exact absurd hc List.not_mem_nil
    · exact List.mem_singleton.1 hc ▸ by decide
  cases value with
  | nan =>
    have hc : c ∈ ['N', 'a', 'N'] := h
    fin_cases hc <;> exact .inr (by decide)
  | infinite negative =>
    rcases List.mem_append.1 h with hc | hc
    · exact .inr (hsign hc)
    · fin_cases hc <;> exact .inr (by decide)
  | finite negative code =>
    rcases List.mem_append.1 h with hc | hc
    · exact .inr (hsign hc)
    · rw [magnitudeText] at hc
      split_ifs at hc
      · exact .inl (List.mem_singleton.1 hc ▸ rfl)
      · exact mem_positional (fun c hc => (shortest code).isDigit_of_mem_trimmed hc) _ hc

/-- Digits have no case. -/
theorem toLower_of_isDigit {c : Char} (h : c.isDigit) : c.toLower = c := by
  have hdigit := (Char.isDigit_iff_toNat.1 h).2
  rw [Char.toLower, dif_neg]
  rintro ⟨hletter, -⟩
  have hletter : 'A'.toNat ≤ c.toNat := hletter
  exact absurd (hletter.trans hdigit) (by decide)

/-- A text that reads as digits starts with a digit or a point. -/
theorem exists_cons_of_ofDigits? {negative : Bool} {text : List Char} {value : Binary64}
    (h : ofDigits? negative text = some value) :
    ∃ c rest, text = c :: rest ∧ (c.isDigit ∨ c = '.') := by
  cases text with
  | nil => exact absurd h (by simp [ofDigits?, splitFraction])
  | cons c rest =>
    refine ⟨c, rest, rfl, or_iff_not_imp_left.2 fun hdigit => by_contra fun hpoint => ?_⟩
    have hsplit : splitFraction (c :: rest) = ([], c :: rest) := by
      unfold splitFraction
      split <;> simp_all
    rw [ofDigits?, List.takeWhile_cons_of_neg hdigit, List.dropWhile_cons_of_neg hdigit,
      hsplit] at h
    simp at h

/-- **Numbers are read back**: the text of a number reads as it. -/
theorem ofNumeral?_text (value : Binary64) : ofNumeral? value.text = some value := by
  cases value with
  | nan => rfl
  | infinite negative => cases negative <;> rfl
  | finite negative code =>
    have hread := ofDigits?_magnitudeText negative code
    rw [text]
    generalize magnitudeText code = digits at hread
    obtain ⟨c, rest, rfl, hc⟩ := exists_cons_of_ofDigits? hread
    have hlower : c.toLower ≠ 'i' ∧ c.toLower ≠ 'n' ∧ c ≠ '-' ∧ c ≠ '+' := by
      rcases hc with hc | rfl
      · rw [toLower_of_isDigit hc]
        refine ⟨?_, ?_, ?_, ?_⟩ <;> · rintro rfl; exact absurd hc (by decide)
      · decide
    have hsign : splitSign (signText negative ++ c :: rest) = (negative, c :: rest) := by
      cases negative
      · unfold splitSign
        split <;> simp_all [signText]
      · rfl
    rw [ofNumeral?, hsign]
    simp [hlower, hread]

/-- The text of a number is not empty. -/
theorem text_ne_nil (value : Binary64) : value.text ≠ [] := by
  intro hnil
  have hread := ofNumeral?_text value
  rw [hnil] at hread
  exact nomatch hread

end ChainIR.Binary64
