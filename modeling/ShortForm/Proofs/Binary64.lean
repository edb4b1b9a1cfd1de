import Mathlib.Algebra.Group.Nat.Defs
import Mathlib.Order.Monotone.Basic
import ShortForm.Binary64

/-!
# Doubles are the nearest to themselves

The words of finite magnitudes and their values determine each other: the magnitude nearest to the
value of a finite magnitude is that magnitude (`Magnitude.nearest_units`). Nothing is rounded there,
because the value is a whole number of the steps at its place. What is nearest to a greater quotient
is no less (`Magnitude.nearest_mono`). The words are in the order of what they stand for
(`Magnitude.units_strictMono`). A whole number of no more digits than a double has is a magnitude,
and so is its product with a power of two (`Magnitude.exists_units`). A double is its sign and its
magnitude (`Binary64.eq_of_parts`).
-/

namespace ShortForm

/-! ## Rounding -/

/-- Nothing is rounded where the quotient is whole. -/
theorem roundQuotient_mul (a : Nat) {p : Nat} (pos : 0 < p) : roundQuotient (a * p) p = a := by
  have quotient : a * p / p = a := Nat.mul_div_cancel a pos
  have remainder : a * p % p = 0 := Nat.mul_mod_left a p
  simp only [roundQuotient, quotient, remainder, Nat.mul_zero, if_pos (Or.inl pos)]

/-- A common factor does not change the rounding. -/
theorem roundQuotient_mul_mul (a p : Nat) {d : Nat} (pos : 0 < d) :
    roundQuotient (a * d) (p * d) = roundQuotient a p := by
  have quotient : a * d / (p * d) = a / p := Nat.mul_div_mul_right a p pos
  have remainder : a * d % (p * d) = a % p * d := Nat.mul_mod_mul_right d a p
  have twice : 2 * (a % p * d) = 2 * (a % p) * d := (Nat.mul_assoc 2 (a % p) d).symm
  simp only [roundQuotient, quotient, remainder, twice, Nat.mul_lt_mul_right pos,
    Nat.mul_left_inj (Nat.ne_of_gt pos)]

/-- A greater dividend is rounded no lower. -/
theorem roundQuotient_mono {a b : Nat} (p : Nat) (le : a ≤ b) :
    roundQuotient a p ≤ roundQuotient b p := by
  have quotients : a / p ≤ b / p := Nat.div_le_div_right le
  have first := Nat.div_add_mod a p
  have second := Nat.div_add_mod b p
  rcases Nat.eq_or_lt_of_le quotients with same | less
  · have remainders : a % p ≤ b % p := by
      rw [same] at first
      omega
    simp only [roundQuotient, same]
    split
    · split <;> omega
    · split <;> omega
  · simp only [roundQuotient]
    split <;> split <;> omega

/-- A quotient is rounded no further than to the whole numbers around it. -/
theorem roundQuotient_le {a p k : Nat} (below : a < p * k) : roundQuotient a p ≤ k := by
  have quotient : a / p < k := Nat.div_lt_of_lt_mul below
  simp only [roundQuotient]
  split <;> omega

theorem le_roundQuotient {a p k : Nat} (pos : 0 < p) (above : p * k ≤ a) :
    k ≤ roundQuotient a p := by
  have quotient : k ≤ a / p := (Nat.le_div_iff_mul_le pos).mpr (Nat.mul_comm k p ▸ above)
  simp only [roundQuotient]
  split <;> omega

namespace Magnitude

/-- There are units in one. -/
theorem unit_pos : 0 < Nat.pow 2 1074 := by
  -- The exponent is forgotten first, or the power would be evaluated.
  generalize 1074 = e
  exact Nat.two_pow_pos e

/-- A common factor does not change what is nearest. -/
theorem nearest_mul_mul (num den : Nat) {d : Nat} (pos : 0 < d) :
    nearest (num * d) (den * d) = nearest num den := by
  unfold nearest
  generalize Nat.pow 2 1074 = unit
  simp only [Nat.mul_right_comm num d unit, Nat.mul_div_mul_right _ den pos,
    Nat.mul_right_comm den d, roundQuotient_mul_mul _ _ pos]

/-! ## Values of words -/

/-- Words below `2^52` stand for themselves. -/
theorem units_of_lt {m : Magnitude} (small : m < 2 ^ 52) : units m = m := if_pos small

/-- Above, a word stands for as many steps as it has digits. -/
theorem units_of_ge {m : Magnitude} (large : 2 ^ 52 ≤ m) :
    units m = (2 ^ 52 + m % 2 ^ 52) * 2 ^ (m / 2 ^ 52 - 1) := if_neg (Nat.not_lt.mpr large)

/-- The word of as many steps as a double has digits for, and of any number of the smallest. One
step more than there are digits for is the first of the next size. -/
theorem units_steps {n e : Nat} (digits : n ≤ 2 ^ 53) (place : e = 0 ∨ 2 ^ 52 ≤ n) :
    units (e * 2 ^ 52 + n) = n * 2 ^ e := by
  rcases Nat.eq_or_lt_of_le digits with rfl | less
  · have fraction : (e * 2 ^ 52 + 2 ^ 53) % 2 ^ 52 = 0 := by omega
    have binade : (e * 2 ^ 52 + 2 ^ 53) / 2 ^ 52 - 1 = e + 1 := by omega
    have above : 2 ^ 52 ≤ e * 2 ^ 52 + 2 ^ 53 := by omega
    have powers : 52 + (e + 1) = 53 + e := by omega
    rw [units_of_ge above, fraction, binade, Nat.add_zero, ← Nat.pow_add, ← Nat.pow_add, powers]
  rcases Nat.lt_or_ge n (2 ^ 52) with small | large
  · obtain rfl : e = 0 := place.resolve_right (Nat.not_le.mpr small)
    rw [Nat.zero_mul, Nat.zero_add, units_of_lt small, Nat.pow_zero, Nat.mul_one]
  · have fraction : (e * 2 ^ 52 + n) % 2 ^ 52 = n - 2 ^ 52 := by omega
    have binade : (e * 2 ^ 52 + n) / 2 ^ 52 - 1 = e := by omega
    have above : 2 ^ 52 ≤ e * 2 ^ 52 + n := by omega
    rw [units_of_ge above, fraction, binade, Nat.add_sub_cancel' large]

/-- Every word is one of a number of steps. -/
theorem exists_steps (m : Nat) :
    ∃ e n, m = e * 2 ^ 52 + n ∧ n < 2 ^ 53 ∧ (e = 0 ∨ 2 ^ 52 ≤ n) := by
  rcases Nat.lt_or_ge m (2 ^ 52) with small | large
  · exact ⟨0, m, by omega, by omega, .inl rfl⟩
  · exact ⟨m / 2 ^ 52 - 1, 2 ^ 52 + m % 2 ^ 52, by omega, by omega, .inr (by omega)⟩

/-- Words are in the order of what they stand for, also those from that of infinity on. -/
theorem units_strictMono : StrictMono units := by
  refine strictMono_nat_of_lt_succ fun m => ?_
  obtain ⟨e, n, rfl, digits, place⟩ := exists_steps m
  rw [units_steps digits.le place, Nat.add_assoc,
    units_steps digits (place.imp_right Nat.le_succ_of_le)]
  exact Nat.mul_lt_mul_of_pos_right (Nat.lt_succ_self n) (Nat.two_pow_pos e)

/-- A whole number of at most `2^53` is a magnitude, and so is its product with a power of two
within reach. -/
theorem exists_units {a s : Nat} (digits : a ≤ 2 ^ 53) (reach : s ≤ 2044) :
    ∃ m < infinity, units m = a * 2 ^ s := by
  have below : ∀ {e n : Nat}, e ≤ 2044 → n ≤ 2 ^ 53 → e * 2 ^ 52 + n < infinity := by
    intro e n place digits
    change e * 2 ^ 52 + n < 0x7ff0000000000000
    omega
  induction s generalizing a with
  | zero => exact ⟨_, below (Nat.zero_le _) digits, units_steps digits (.inl rfl)⟩
  | succ s ih =>
    rcases Nat.lt_or_ge a (2 ^ 52) with small | large
    -- The first digit is moved up as long as there is a factor of two to take.
    · obtain ⟨m, finite, eq⟩ := ih (show a * 2 ≤ 2 ^ 53 by omega) (by omega)
      exact ⟨m, finite, by rw [eq, Nat.pow_succ', Nat.mul_assoc]⟩
    · exact ⟨_, below reach digits, units_steps digits (.inr large)⟩

/-- The binary digits of a magnitude with all the digits that a double has. -/
theorem log2_units {m : Magnitude} (large : 2 ^ 52 ≤ m) :
    (units m).log2 = 52 + (m / 2 ^ 52 - 1) := by
  have fraction : m % 2 ^ 52 < 2 ^ 52 := Nat.mod_lt m (by decide)
  have pos : 0 < (2 ^ 52 + m % 2 ^ 52) * 2 ^ (m / 2 ^ 52 - 1) :=
    Nat.mul_pos (by omega) (Nat.two_pow_pos _)
  rw [units_of_ge large, Nat.log2_eq_iff (Nat.ne_of_gt pos)]
  constructor
  · rw [Nat.pow_add]
    exact Nat.mul_le_mul_right _ (by omega)
  · rw [Nat.add_right_comm, Nat.pow_add]
    exact Nat.mul_lt_mul_of_pos_right (by omega) (Nat.two_pow_pos _)

/-- A word is put together from the step at its place and its digits. -/
theorem steps_units (m : Nat) :
    ((units m).log2 - 52) * 2 ^ 52 + roundQuotient (units m) (2 ^ ((units m).log2 - 52)) = m := by
  rcases Nat.lt_or_ge m (2 ^ 52) with small | large
  · have step : m.log2 - 52 = 0 := by
      rcases Nat.eq_zero_or_pos m with rfl | pos
      · decide
      · exact Nat.sub_eq_zero_of_le (Nat.le_of_lt ((Nat.log2_lt (Nat.ne_of_gt pos)).mpr small))
    have whole := roundQuotient_mul m (show 0 < 1 by decide)
    rw [Nat.mul_one] at whole
    rw [units_of_lt small, step, Nat.zero_mul, Nat.zero_add, Nat.pow_zero, whole]
  · have binade : 1 ≤ m / 2 ^ 52 := (Nat.one_le_div_iff (by decide)).mpr large
    have parts := Nat.div_add_mod m (2 ^ 52)
    rw [log2_units large, Nat.add_sub_cancel_left, units_of_ge large,
      roundQuotient_mul _ (Nat.two_pow_pos _), Nat.sub_mul]
    omega

/-- **A finite magnitude is the nearest to its value.** -/
theorem nearest_units {m : Magnitude} (finite : m < infinity) :
    nearest m.units (Nat.pow 2 1074) = m := by
  have unit := unit_pos
  unfold nearest
  generalize Nat.pow 2 1074 = unit' at unit ⊢
  have place : ((units m).log2 - 52) * Nat.pow 2 52 +
      roundQuotient (units m) (Nat.pow 2 ((units m).log2 - 52)) = m := steps_units m
  simp only [Nat.mul_div_cancel _ unit, Nat.mul_comm unit', roundQuotient_mul_mul _ _ unit, place]
  exact Nat.min_eq_left (Nat.le_of_lt finite)

/-- The magnitude that a quotient is, in units, is the nearest to it. -/
theorem nearest_of_units {m : Magnitude} {num den : Nat} (finite : m < infinity) (pos : 0 < den)
    (same : num * Nat.pow 2 1074 = units m * den) : nearest num den = m := by
  have unit := unit_pos
  have back := nearest_units finite
  generalize Nat.pow 2 1074 = u at unit same back
  calc nearest num den
      = nearest (num * u) (den * u) := (nearest_mul_mul num den unit).symm
    _ = nearest (units m * den) (u * den) := by rw [same, Nat.mul_comm den]
    _ = nearest (units m) u := nearest_mul_mul _ _ pos
    _ = m := back

/-! ## Order -/

section

variable {den : Nat} (x : Nat)

/-- There are less than `2^53` steps up to a quotient. -/
theorem lt_steps (pos : 0 < den) : x < den * 2 ^ ((x / den).log2 - 52) * 2 ^ 53 := by
  have digits : x / den < 2 ^ ((x / den).log2 - 52) * 2 ^ 53 := by
    rw [← Nat.pow_add]
    exact Nat.lt_of_lt_of_le Nat.lt_log2_self (Nat.pow_le_pow_right (by decide) (by omega))
  rw [Nat.mul_assoc, Nat.mul_comm]
  exact (Nat.div_lt_iff_lt_mul pos).mp digits

/-- Above the smallest step there are at least `2^52`. -/
theorem steps_le (pos : 0 < den) (above : (x / den).log2 - 52 ≠ 0) :
    den * 2 ^ ((x / den).log2 - 52) * 2 ^ 52 ≤ x := by
  have digits : 2 ^ ((x / den).log2 - 52) * 2 ^ 52 ≤ x / den := by
    rw [← Nat.pow_add, Nat.sub_add_cancel (by omega)]
    exact Nat.log2_self_le fun zero => above (by rw [zero]; decide)
  rw [Nat.mul_assoc, Nat.mul_comm]
  exact (Nat.le_div_iff_mul_le pos).mp digits

/-- The whole steps up to a quotient are the digits of a word, with the step as its place. -/
theorem div_steps (pos : 0 < den) :
    x / (den * 2 ^ ((x / den).log2 - 52)) < 2 ^ 53 ∧ ((x / den).log2 - 52 = 0 ∨
      2 ^ 52 ≤ x / (den * 2 ^ ((x / den).log2 - 52))) := by
  have less := lt_steps x pos
  have more := steps_le x pos
  generalize (x / den).log2 - 52 = e at less more ⊢
  refine ⟨Nat.div_lt_of_lt_mul less, or_iff_not_imp_left.mpr fun above => ?_⟩
  rw [Nat.le_div_iff_mul_le (Nat.mul_pos pos (Nat.two_pow_pos e)), Nat.mul_comm]
  exact more above

theorem roundQuotient_step_le (pos : 0 < den) :
    roundQuotient x (den * 2 ^ ((x / den).log2 - 52)) ≤ 2 ^ 53 :=
  roundQuotient_le (lt_steps x pos)

theorem le_roundQuotient_step (pos : 0 < den) (above : (x / den).log2 - 52 ≠ 0) :
    2 ^ 52 ≤ roundQuotient x (den * 2 ^ ((x / den).log2 - 52)) :=
  le_roundQuotient (Nat.mul_pos pos (Nat.two_pow_pos _)) (steps_le x pos above)

end

theorem log2_mono {a b : Nat} (le : a ≤ b) : a.log2 ≤ b.log2 := by
  rcases Nat.eq_zero_or_pos a with rfl | pos
  · simp
  · exact (Nat.le_log2 (by omega)).mpr (Nat.le_trans (Nat.log2_self_le (by omega)) le)

/-- **What is nearest to a greater quotient is no less.** -/
theorem nearest_mono {a b den : Nat} (pos : 0 < den) (le : a ≤ b) :
    nearest a den ≤ nearest b den := by
  unfold nearest
  generalize Nat.pow 2 1074 = unit
  have scaled : a * unit ≤ b * unit := Nat.mul_le_mul_right unit le
  generalize a * unit = x at scaled
  generalize b * unit = y at scaled
  have steps : (x / den).log2 - 52 ≤ (y / den).log2 - 52 :=
    Nat.sub_le_sub_right (log2_mono (Nat.div_le_div_right scaled)) 52
  have words : ((x / den).log2 - 52) * 2 ^ 52 +
        roundQuotient x (den * 2 ^ ((x / den).log2 - 52)) ≤
      ((y / den).log2 - 52) * 2 ^ 52 +
        roundQuotient y (den * 2 ^ ((y / den).log2 - 52)) := by
    rcases Nat.eq_or_lt_of_le steps with same | less
    · rw [same]
      exact Nat.add_le_add_left (roundQuotient_mono _ scaled) _
    · have first := roundQuotient_step_le x pos
      have second := le_roundQuotient_step y pos (by omega)
      omega
  exact Nat.le_min.mpr ⟨Nat.le_trans (Nat.min_le_left _ _) words, Nat.min_le_right _ _⟩

end Magnitude

namespace Binary64

/-- The word of a double is put together from its sign and its magnitude. -/
theorem toNat_bits (x : Binary64) :
    x.bits.toNat = (if x.isNegative then 0x8000000000000000 else 0) + x.magnitude := by
  have fits := x.bits.toNat_lt
  unfold isNegative magnitude
  by_cases negative : 0x8000000000000000 ≤ x.bits.toNat
  · simp only [negative, decide_true, if_true]
    omega
  · simp only [negative, decide_false, Bool.false_eq_true, if_false]
    omega

/-- A double is its sign and its magnitude. -/
theorem eq_of_parts {x y : Binary64} (signs : x.isNegative = y.isNegative)
    (magnitudes : x.magnitude = y.magnitude) : x = y := by
  have bits : x.bits.toNat = y.bits.toNat := by
    rw [toNat_bits, toNat_bits, signs, magnitudes]
  exact congrArg mk (UInt64.toNat_inj.mp bits)

section

variable {m : Nat} (negative : Bool)

theorem toNat_bits_ofParts (signless : m < 0x8000000000000000) :
    (ofParts negative m).bits.toNat = (if negative then 0x8000000000000000 else 0) + m := by
  cases negative with
  | true => simp [ofParts]; omega
  | false => simp [ofParts]; omega

theorem magnitude_ofParts (signless : m < 0x8000000000000000) :
    (ofParts negative m).magnitude = m := by
  rw [magnitude, toNat_bits_ofParts negative signless]
  cases negative with
  | true => simp; omega
  | false => simp; omega

theorem isNegative_ofParts (signless : m < 0x8000000000000000) :
    (ofParts negative m).isNegative = negative := by
  rw [isNegative, toNat_bits_ofParts negative signless]
  cases negative with
  | true => simp
  | false => simp; omega

end

/-- A double is put together from its parts. -/
theorem ofParts_eq (x : Binary64) : ofParts x.isNegative x.magnitude = x := by
  have signless : x.magnitude < 0x8000000000000000 := Nat.mod_lt _ (by decide)
  exact eq_of_parts (isNegative_ofParts _ signless) (magnitude_ofParts _ signless)

end Binary64
end ShortForm
