import Mathlib.Algebra.Order.Field.Power
import ShortForm.Proofs.Binary64.Nearest
import ShortForm.Proofs.Json.WrittenDecimal

/-!
# The shortest decimal

No decimal with fewer digits reads back than the one that is found
(`Decimal.pow_le_of_nearestTo`). What reads back as a magnitude surrounds it without a gap, because
rounding keeps the order. So if neither neighbour of the magnitude on a grid reads back, nothing on
that grid does, nor on a coarser one; and a decimal that lies between two points of the grid has a
digit for each place from the first of the magnitude down to its own last, which is too many.
-/

namespace ShortForm.Decimal

/-! ## The search -/

section

variable {tie : Tie} {low above step : ℕ} {readsBack : ℕ → Bool}

/-- Nothing is chosen only where neither neighbour reads back. -/
theorem choose_eq_none_iff :
    choose tie low above step readsBack = none ↔
      readsBack low = false ∧ readsBack (low + 1) = false := by
  unfold choose
  cases readsBack low <;> cases readsBack (low + 1)
  · simp
  · simp
  · simp
  · simp only [Bool.true_eq_false, and_self, iff_false]
    split
    · simp
    split
    · simp
    · simp

/-- One of the two neighbours is chosen. -/
theorem le_of_choose {c : ℕ} (chosen : choose tie low above step readsBack = some c) :
    c ≤ low + 1 := by
  unfold choose at chosen
  split at chosen
  · split at chosen
    · cases chosen
      exact Nat.le_succ low
    split at chosen
    · cases chosen
      exact Nat.le_succ low
    · cases chosen
      exact Nat.le_refl _
  · cases chosen
    exact Nat.le_succ low
  · cases chosen
    exact Nat.le_refl _
  · cases chosen

end

/-- The search ends on the first grid on which something is found, or on the finest. -/
theorem search_eq (found? : ℕ → Option ℕ) (finest start : ℕ) :
    ∃ c, ∃ k ≤ start, search found? finest start = ⟨c, k - 1074⟩ ∧
      (∀ j, k < j → j ≤ start → found? j = none) ∧ (k = 0 ∧ c = finest ∨ found? k = some c) := by
  induction start with
  | zero =>
    refine ⟨finest, 0, Nat.le_refl 0, ?_, fun j above reach => by omega, .inl ⟨rfl, rfl⟩⟩
    simp [search]
  | succ start ih =>
    cases here : found? (start + 1) with
    | some c =>
      refine ⟨c, start + 1, Nat.le_refl _, ?_, fun j above reach => by omega, .inr here⟩
      simp [search, here]
    | none =>
      obtain ⟨c, k, reach, result, coarser, found⟩ := ih
      refine ⟨c, k, Nat.le_succ_of_le reach, ?_, fun j above reach' => ?_, found⟩
      · simp [search, here, result]
      · rcases Nat.eq_or_lt_of_le reach' with rfl | less
        · exact here
        · exact coarser j above (Nat.le_of_lt_succ less)

/-! ## Digits -/

theorem toDigits_pow (n : ℕ) : Nat.toDigits 10 (10 ^ n) = '1' :: List.replicate n '0' := by
  induction n with
  | zero => rfl
  | succ n ih =>
    have long : ¬ 10 ^ (n + 1) < 10 := by
      have pos : 0 < 10 ^ n := Nat.pow_pos (by decide)
      omega
    rw [Nat.toDigits_eq_if (by decide), if_neg long, Nat.pow_succ, Nat.mul_div_cancel _ (by decide),
      Nat.mul_mod_left, ih, List.replicate_succ']
    rfl

/-- The power of ten itself has one significant digit, so that it is no exception here. -/
theorem length_significant_le {d : Decimal} {n : ℕ} (pos : 0 < n) (le : d.coefficient ≤ 10 ^ n) :
    d.significant.length ≤ n := by
  rcases Nat.eq_or_lt_of_le le with same | less
  · have one : d.significant = ['1'] := by
      simp [significant, same, toDigits_pow]
    rw [one]
    exact pos
  · obtain ⟨zeros, digits⟩ := toDigits_coefficient d
    have length := (Nat.length_toDigits_le_iff (by decide) pos).mpr less
    rw [digits, List.length_append] at length
    omega

/-! ## Grids -/

theorem value_onGrid (c k : ℕ) : value ⟨c, k - 1074⟩ = (c * 10 ^ k : ℕ) * 10 ^ (-1074 : ℤ) := by
  rw [value, sub_eq_add_neg, zpow_add₀ (by norm_num), zpow_natCast, ← mul_assoc, Nat.cast_mul,
    Nat.cast_pow, Nat.cast_ofNat]

theorem value_lt_iff (a b k j : ℕ) :
    value ⟨a, k - 1074⟩ < value ⟨b, j - 1074⟩ ↔ a * 10 ^ k < b * 10 ^ j := by
  have unit : (0 : ℚ) < 10 ^ (-1074 : ℤ) := zpow_pos (by norm_num) _
  rw [value_onGrid, value_onGrid, mul_lt_mul_iff_left₀ unit, Nat.cast_lt]

theorem value_le_iff (a b k j : ℕ) :
    value ⟨a, k - 1074⟩ ≤ value ⟨b, j - 1074⟩ ↔ a * 10 ^ k ≤ b * 10 ^ j := by
  rw [← not_lt, value_lt_iff, Nat.not_lt]

theorem value_nonneg (d : Decimal) : 0 ≤ d.value := by
  unfold value
  positivity

section

variable {m : Magnitude} {tie : Tie} {k : ℕ}

/-- What is found on a grid is one of the two neighbours. -/
theorem le_of_onGrid? {c : ℕ} (found : onGrid? tie m k = some c) : c ≤ exact m / 10 ^ k + 1 := by
  unfold onGrid? at found
  have le := le_of_choose found
  -- The magnitude is forgotten, or its value would be evaluated.
  generalize exact m = x at le ⊢
  exact le

/-- If neither neighbour on a grid reads back, what reads back lies strictly between them. -/
theorem between_of_onGrid?_eq_none (finite : m < .infinity) {q : ℚ} (none : onGrid? tie m k = none)
    (nonneg : 0 ≤ q) (back : .nearestTo q = m) :
    value ⟨exact m / 10 ^ k, k - 1074⟩ < q ∧ q < value ⟨exact m / 10 ^ k + 1, k - 1074⟩ := by
  unfold onGrid? at none
  have neither := choose_eq_none_iff.mp none
  simp only [decide_eq_false_iff_not] at neither
  have place : (k - 1074 : ℤ) + 1074 = k := by omega
  rw [← nearestTo_onGrid _ place, ← nearestTo_onGrid _ place] at neither
  have finest (c : ℕ) : c * Nat.pow 10 0 = c := Nat.mul_one c
  have here : .nearestTo (value ⟨exact m, (0 : ℕ) - 1074⟩) = m := by
    rw [nearestTo_onGrid (exact m) (show ((0 : ℕ) - 1074 : ℤ) + 1074 = (0 : ℕ) by omega), finest]
    exact nearest_exact finite
  have down : exact m / 10 ^ k * 10 ^ k ≤ exact m * 10 ^ 0 := by
    rw [Nat.pow_zero, Nat.mul_one]
    exact Nat.div_mul_le_self _ _
  have up : exact m * 10 ^ 0 ≤ (exact m / 10 ^ k + 1) * 10 ^ k := by
    rw [Nat.pow_zero, Nat.mul_one, Nat.mul_comm]
    exact (Nat.lt_mul_div_succ _ (Nat.pow_pos (by decide))).le
  have low := Magnitude.nearestTo_mono (value_nonneg _) ((value_le_iff _ _ _ _).mpr down)
  have high := Magnitude.nearestTo_mono (value_nonneg _) ((value_le_iff _ _ _ _).mpr up)
  rw [here] at low high
  constructor
  · refine lt_of_not_ge fun le => neither.1 (Nat.le_antisymm low ?_)
    exact back.ge.trans (Magnitude.nearestTo_mono nonneg le)
  · refine lt_of_not_ge fun le => neither.2 (Nat.le_antisymm ?_ high)
    exact (Magnitude.nearestTo_mono (value_nonneg _) le).trans back.le

/-- A decimal strictly between two neighbours on a grid has no fewer digits than there are places
from the first of the lower neighbour to its own last. -/
theorem pow_le_of_between {c L n : ℕ} {e : ℤ} (first : 10 ^ n ≤ L)
    (above : value ⟨L, (k + 1 : ℕ) - 1074⟩ < c * 10 ^ e)
    (below : (c * 10 ^ e : ℚ) < value ⟨L + 1, (k + 1 : ℕ) - 1074⟩) : 10 ^ (n + 1) ≤ c := by
  rcases Int.lt_or_le k (e + 1074) with coarse | fine
  -- What is on the grid itself is no further than the neighbours.
  · obtain ⟨i, rfl⟩ : ∃ i : ℕ, e = i + ((k + 1 : ℕ) - 1074) :=
      ⟨(e + 1074 - (k + 1 : ℕ)).toNat, by omega⟩
    have onGrid : (c * 10 ^ (i + ((k + 1 : ℕ) - 1074 : ℤ)) : ℚ) =
        value ⟨c * 10 ^ i, (k + 1 : ℕ) - 1074⟩ := by
      rw [value, zpow_add₀ (by norm_num), zpow_natCast, ← mul_assoc]
      push_cast
      rfl
    rw [onGrid, value_lt_iff] at above below
    have more := Nat.lt_of_mul_lt_mul_right above
    have less := Nat.lt_of_mul_lt_mul_right below
    omega
  · refine Nat.le_of_not_lt fun few => ?_
    have finer : (c * 10 ^ e : ℚ) ≤ value ⟨c, k - 1074⟩ := by
      have power : (10 : ℚ) ^ e ≤ 10 ^ (k - 1074 : ℤ) :=
        zpow_le_zpow_right₀ (by norm_num) (by omega)
      exact mul_le_mul_of_nonneg_left power (Nat.cast_nonneg c)
    have small : value ⟨c, k - 1074⟩ < value ⟨L, (k + 1 : ℕ) - 1074⟩ := by
      rw [value_lt_iff]
      calc c * 10 ^ k < 10 ^ (n + 1) * 10 ^ k :=
            Nat.mul_lt_mul_of_pos_right few (Nat.pow_pos (by decide))
        _ = 10 ^ n * 10 ^ (k + 1) := by rw [← Nat.pow_add, ← Nat.pow_add]; congr 1; omega
        _ ≤ L * 10 ^ (k + 1) := Nat.mul_le_mul_right _ first
    exact absurd (above.trans_le finer) small.asymm

end

/-! ## No decimal is shorter -/

theorem exact_pos {m : Magnitude} (nonzero : m ≠ 0) : 0 < exact m := by
  have five : 0 < Nat.pow 5 1074 := by
    generalize 1074 = e
    exact Nat.pow_pos (by decide)
  have units := Magnitude.units_strictMono (Nat.pos_of_ne_zero nonzero)
  exact Nat.mul_pos (Nat.zero_lt_of_lt units) five

/-- The digits that a number has are the place of its first one. -/
theorem pow_le_and_lt_pow {n : ℕ} (pos : 0 < n) :
    10 ^ ((Nat.toDigits 10 n).length - 1) ≤ n ∧ n < 10 ^ ((Nat.toDigits 10 n).length - 1 + 1) := by
  generalize length : (Nat.toDigits 10 n).length - 1 = e
  constructor
  · rcases Nat.eq_zero_or_pos e with rfl | some
    · exact pos
    · refine Nat.le_of_not_lt fun less => ?_
      have short := (Nat.length_toDigits_le_iff (by decide) some).mpr less
      omega
  · exact (Nat.length_toDigits_le_iff (by decide) (Nat.succ_pos e)).mp (by omega)

/-- What is found on a grid has no more digits than there are places from the first of the
magnitude down to the grid. -/
theorem length_significant_found {m : Magnitude} {tie : Tie} {c k start : ℕ} (reach : k ≤ start)
    (last : exact m < 10 ^ (start + 1)) (found : k = 0 ∧ c = exact m ∨ onGrid? tie m k = some c) :
    (significant ⟨c, k - 1074⟩).length ≤ start + 1 - k := by
  refine length_significant_le (by omega) ?_
  rcases found with ⟨finest, same⟩ | found
  · rw [finest]
    exact same.trans_le last.le
  · have places : 10 ^ k * 10 ^ (start + 1 - k) = 10 ^ (start + 1) := by
      rw [← Nat.pow_add, Nat.add_sub_cancel' (by omega)]
    have quotient : exact m / 10 ^ k < 10 ^ (start + 1 - k) :=
      Nat.div_lt_of_lt_mul (last.trans_eq places.symm)
    exact (le_of_onGrid? found).trans quotient

/-- If nothing is found on the coarser grids, a decimal that reads back has a digit for each place
from the first of the magnitude down to the grid. -/
theorem pow_le_of_coarser {m : Magnitude} (finite : m < .infinity) (nonzero : m ≠ 0) {tie : Tie}
    {k start : ℕ} (first : 10 ^ start ≤ exact m) (reach : k ≤ start)
    (coarser : ∀ j, k < j → j ≤ start → onGrid? tie m j = none) {c : ℕ} {e : ℤ}
    (back : .nearestTo (c * 10 ^ e) = m) : 10 ^ (start - k) ≤ c := by
  rcases Nat.eq_or_lt_of_le reach with rfl | less
  -- One digit cannot be left out, because zero does not read back.
  · have some : c ≠ 0 := by
      rintro rfl
      rw [Nat.cast_zero, zero_mul, Magnitude.nearestTo_zero] at back
      exact nonzero back.symm
    rw [Nat.sub_self, Nat.pow_zero]
    exact Nat.pos_of_ne_zero some
  · have nonneg : (0 : ℚ) ≤ c * 10 ^ e := value_nonneg ⟨c, e⟩
    obtain ⟨above, below⟩ := between_of_onGrid?_eq_none finite
      (coarser (k + 1) (Nat.lt_succ_self k) less) nonneg back
    have places : 10 ^ (start - (k + 1)) ≤ exact m / 10 ^ (k + 1) := by
      generalize exact m = x at first
      rw [Nat.le_div_iff_mul_le (Nat.pow_pos (by decide)), ← Nat.pow_add,
        Nat.sub_add_cancel less]
      exact first
    have digits := pow_le_of_between places above below
    rwa [show start - (k + 1) + 1 = start - k by omega] at digits

/-- **No decimal that reads back has fewer digits than the shortest.** -/
theorem pow_le_of_nearestTo {m : Magnitude} (finite : m < .infinity) (nonzero : m ≠ 0) (tie : Tie)
    {c : ℕ} {e : ℤ} (back : .nearestTo (c * 10 ^ e) = m) :
    10 ^ ((shortest tie m).significant.length - 1) ≤ c := by
  obtain ⟨first, last⟩ := pow_le_and_lt_pow (exact_pos nonzero)
  unfold shortest
  generalize (Nat.toDigits 10 (exact m)).length - 1 = start at first last
  obtain ⟨found, k, reach, result, coarser, here⟩ := search_eq (onGrid? tie m) (exact m) start
  have few := length_significant_found reach last here
  have digits := pow_le_of_coarser finite nonzero first reach coarser back
  rw [result]
  exact (Nat.pow_le_pow_right (by decide) (by omega)).trans digits

end ShortForm.Decimal
