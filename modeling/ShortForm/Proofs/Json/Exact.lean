import ShortForm.Proofs.Json.CutNumber
import ShortForm.Proofs.Json.WrittenDecimal

/-!
# Numbers that are read exactly

The reader rounds in steps: the digits become a double, the power of ten becomes a double, and the
product or the quotient of the two is rounded once more. Where the first two steps are exact only
the last one rounds, and the number that is read is the double nearest to what is written
(`Numeral.value_nearest`). The digits are exact up to `2^53`, and the power of ten up to `10^22`,
because `5^22 < 2^53`.
-/

namespace ShortForm

namespace Magnitude

/-- A whole number of no more digits than a double has, times a power of two, is a magnitude. -/
theorem units_ofNat {a t : Nat} (digits : a ≤ 2 ^ 53) (reach : t ≤ 970) :
    units (ofNat (a * 2 ^ t)) = a * 2 ^ t * Nat.pow 2 1074 := by
  obtain ⟨m, finite, eq⟩ := exists_units digits (show t + 1074 ≤ 2044 by omega)
  have scaled : a * 2 ^ t * Nat.pow 2 1074 = a * 2 ^ (t + 1074) := by
    generalize 1074 = e
    rw [Nat.pow_add, ← Nat.mul_assoc]
    rfl
  have word : ofNat (a * 2 ^ t) = m :=
    nearest_of_units finite Nat.one_pos (by rw [scaled, eq, Nat.mul_one])
  rw [word, eq, scaled]

/-- A power of ten up to `10^22` is a magnitude. -/
theorem units_ofNat_power {k : Nat} (reach : k ≤ 22) :
    units (ofNat (Nat.pow 10 k)) = Nat.pow 10 k * Nat.pow 2 1074 := by
  have five : 5 ^ k ≤ 2 ^ 53 :=
    Nat.le_trans (Nat.pow_le_pow_right (by decide) reach) (by decide)
  have ten : Nat.pow 10 k = 5 ^ k * 2 ^ k := Nat.mul_pow 5 2 k
  rw [ten]
  exact units_ofNat five (Nat.le_trans reach (by decide))

/-- A whole number up to `2^53` is a magnitude. -/
theorem units_ofNat_word {n : Nat} (digits : n ≤ 2 ^ 53) :
    units (ofNat n) = n * Nat.pow 2 1074 := by
  have same := units_ofNat digits (Nat.zero_le 970)
  rwa [Nat.pow_zero, Nat.mul_one] at same

/-- The quotient of two magnitudes that are whole numbers is rounded once. -/
theorem div_eq_nearest {a b : Magnitude} {n d : Nat} (left : units a = n * Nat.pow 2 1074)
    (right : units b = d * Nat.pow 2 1074) : a.div b = nearest n d := by
  rw [div, left, right]
  exact nearest_mul_mul n d unit_pos

/-- The product of two magnitudes that are whole numbers is rounded once. -/
theorem mul_eq_nearest {a b : Magnitude} {n k : Nat} (left : units a = n * Nat.pow 2 1074)
    (right : units b = k * Nat.pow 2 1074) : a.mul b = nearest (n * k) 1 := by
  have unit : Nat.pow 2 2148 = Nat.pow 2 1074 * Nat.pow 2 1074 := by decide +kernel
  have pos := unit_pos
  rw [mul, left, right, unit]
  generalize Nat.pow 2 1074 = u at pos
  have same := nearest_mul_mul (n * k) 1 (Nat.mul_pos pos pos)
  rwa [Nat.one_mul, Nat.mul_mul_mul_comm] at same

end Magnitude

namespace Numeral

/-- **Scaling rounds once** where the significand and the power of ten are magnitudes. -/
theorem scale_eq_nearestTo {s : Nat} {e : Int} (digits : s ≤ 2 ^ 53) (reach : e.natAbs ≤ 22) :
    scale (.ofNat s) e = some (.nearestTo (s * 10 ^ e)) := by
  have left := Magnitude.units_ofNat_word digits
  have right := Magnitude.units_ofNat_power reach
  unfold scale
  rw [if_pos (by omega)]
  simp only
  split
  · rename_i down
    have quotient : (s * 10 ^ e : ℚ) = (s : ℕ) / (10 ^ e.natAbs : ℕ) := by
      rw [show e = -(e.natAbs : ℤ) by omega, zpow_neg, Int.natAbs_neg, Int.natAbs_natCast,
        zpow_natCast, div_eq_mul_inv]
      push_cast
      rfl
    rw [Magnitude.div_eq_nearest left right, quotient,
      Magnitude.nearestTo_div s (Nat.pow_pos (by decide))]
    rfl
  · rename_i up
    have product : (s * 10 ^ e : ℚ) = (s * 10 ^ e.natAbs : ℕ) / (1 : ℕ) := by
      rw [show e = (e.natAbs : ℤ) by omega, Int.natAbs_natCast, zpow_natCast]
      push_cast
      rw [div_one]
    have small : s * Nat.pow 10 e.natAbs ≤ Nat.pow 10 38 := by
      have power : Nat.pow 10 e.natAbs ≤ Nat.pow 10 22 := Nat.pow_le_pow_right (by decide) reach
      exact Nat.le_trans (Nat.mul_le_mul digits power) (by decide)
    have finite : Magnitude.nearest (s * Nat.pow 10 e.natAbs) 1 ≠ .infinity :=
      Nat.ne_of_lt (Nat.lt_of_le_of_lt (Magnitude.nearest_mono Nat.one_pos small)
        (Magnitude.power_lt_infinity (by decide)))
    rw [Magnitude.mul_eq_nearest left right, if_neg finite, product,
      Magnitude.nearestTo_div _ Nat.one_pos]
    rfl

/-- The exponent that is written is added, if it is short enough to be taken. -/
theorem magnitude_eq_scale {n : Numeral} (short : n.writtenExponent.natAbs ≤ maxExponent)
    (s : Nat) (e : Int) : magnitude s e n.exponent = scale (.ofNat s) (e + n.writtenExponent) := by
  obtain ⟨negative, whole, fraction, exponent⟩ := n
  cases exponent with
  | none => exact congrArg (scale _) (Int.add_zero e).symm
  | some written =>
    obtain ⟨below, ds⟩ := written
    simp only [writtenExponent] at short ⊢
    have digits : Nat.ofDigitChars 10 ds 0 ≤ maxExponent := by
      split at short <;> omega
    rw [magnitude_taken (take_of_le digits)]
    split <;> rfl

/-- **The number that is read is the nearest to what is written**, if the digits make no more than
`2^53` and the power of ten is no further from one than `10^22`. -/
theorem value_nearest {n : Numeral} (marked : n.fraction ≠ none ∨ n.exponent ≠ none)
    (digits : n.significand ≤ 2 ^ 53) (reach : n.lastExponent.natAbs ≤ 22)
    (short : n.writtenExponent.natAbs ≤ maxExponent) :
    n.value = .ok (.float (.ofParts n.negative (.nearestTo n.exact))) := by
  have append : n.significand =
      Nat.ofDigitChars 10 (n.fraction.getD []) (Nat.ofDigitChars 10 n.whole 0) :=
    Nat.ofDigitChars_append 0
  have fits : n.significand ≤ maxWord := Nat.le_trans digits (by decide)
  have whole : Nat.ofDigitChars 10 n.whole 0 ≤ maxWord := by
    rw [append, Nat.ofDigitChars_eq_ofDigitChars_zero] at fits
    have grows := Nat.le_mul_of_pos_left (Nat.ofDigitChars 10 n.whole 0)
      (Nat.pow_pos (n := (n.fraction.getD []).length) (show 0 < 10 by decide))
    omega
  have fraction : take maxWord (Nat.ofDigitChars 10 n.whole 0) (n.fraction.getD []) =
      (n.significand, []) := by
    rw [append] at fits ⊢
    exact take_of_le fits
  have exponent : -((n.fraction.getD []).length : ℤ) + n.writtenExponent = n.lastExponent := by
    rw [lastExponent]
    omega
  unfold value
  simp only [take_of_le whole]
  split
  · simp_all
  · simp only [fraction, List.length_nil, Nat.sub_zero, Int.natCast_zero, Int.zero_sub,
      magnitude_eq_scale short, exponent, scale_eq_nearestTo digits reach]
    rfl

end Numeral

/-! ## Doubles -/

/-- The exponent that a decimal is written with is short, if there are no more digits than a double
has and the last exponent is within reach. -/
theorem Decimal.writtenExponent_le {d : Decimal} (pos : 0 < d.coefficient) {style : Style}
    {negative : Bool} (digits : (d.numeral style negative).significand ≤ 2 ^ 53)
    (reach : (d.numeral style negative).lastExponent.natAbs ≤ 22) :
    (d.numeral style negative).writtenExponent.natAbs ≤ Numeral.maxExponent := by
  unfold numeral at digits reach ⊢
  by_cases positional : style.isPositional (d.point - 1)
  · rw [if_pos positional]
    unfold positionalNumeral
    split <;> exact Nat.zero_le _
  · rw [if_neg positional] at digits reach ⊢
    obtain ⟨c, ds, eq, nonzero⟩ := significant_cons pos
    have digit : c.isDigit := isDigit_of_mem_significant (eq ▸ List.mem_cons_self)
    have few : 10 ^ ds.length ≤ 2 ^ 53 := by
      rw [Numeral.significand, digits_scientific, eq] at digits
      exact Nat.le_trans (Numeral.pow_le_ofDigitChars digit nonzero ds) digits
    have short : ds.length < 16 :=
      (Nat.pow_lt_pow_iff_right (by decide)).mp (Nat.lt_of_le_of_lt few (by decide : _ < 10 ^ 16))
    rw [Numeral.lastExponent, fraction_scientific, eq, List.drop_one, List.tail_cons] at reach
    unfold Numeral.maxExponent
    omega

namespace Binary64

variable {x : Binary64}

theorem writtenExponent_le (finite : x.isFinite)
    (digits : (x.numeral Number.floatStyle).significand ≤ 2 ^ 53)
    (reach : (x.numeral Number.floatStyle).lastExponent.natAbs ≤ 22) :
    (x.numeral Number.floatStyle).writtenExponent.natAbs ≤ Numeral.maxExponent := by
  unfold numeral at digits reach ⊢
  by_cases zero : x.magnitude = 0
  · rw [if_pos zero]
    exact Nat.zero_le _
  · rw [if_neg zero] at digits reach ⊢
    exact Decimal.writtenExponent_le
      (Decimal.coefficient_shortest _ (of_decide_eq_true finite) zero) digits reach

/-- **A finite double is read back from its text** if its digits make no more than `2^53` and its
last exponent is no further from zero than 22. -/
theorem read_write (finite : x.isFinite)
    (digits : (x.numeral Number.floatStyle).significand ≤ 2 ^ 53)
    (reach : (x.numeral Number.floatStyle).lastExponent.natAbs ≤ 22) :
    Number.read.run (Number.float x).write = .ok (.float x, []) := by
  have number := Numeral.value_nearest (marked_numeral Number.floatStyle x) digits reach
    (writtenExponent_le finite digits reach)
  rw [nearestTo_numeral Number.floatStyle finite, negative_numeral, ofParts_eq] at number
  have spelled : (Number.float x).SpelledBy (Number.float x).write :=
    ⟨_, spelledBy_decimal Number.floatStyle finite, number⟩
  have reads := spelled.read Numeral.ends_nil
  rwa [List.append_nil] at reads

end Binary64
end ShortForm
