import Mathlib.Data.Nat.Cast.Order.Field
import Mathlib.Order.Monotone.Basic
import Mathlib.Tactic.Linarith
import ShortForm.Proofs.Decimal

/-!
# The nearest double

What it means that a number rounds to a double, said without rounding: no other double is nearer,
and none but one with the same value is as near unless the last digit of the double is even
(`Binary64.IsNearest`). The infinities take part as `2^1024` and `-2^1024`, where the next doubles
would be; so what is half a step or more above the greatest double does not round to it.

The rounding of quotients is this (`Magnitude.isRounded_nearest`). The words of magnitudes are in
the order of their values, so only the two words around a quotient have to be compared, and they are
compared by the whole number of steps that the quotient is rounded to. The sign can be put aside: a
number rounds to a double of its sign just where it rounds to the magnitude
(`Binary64.isNearest_signed`, `Binary64.IsNearest.isRounded`).
-/

namespace ShortForm

/-! ## The nearer of two neighbours -/

/-- Of two neighbouring words, with a number between their values, the one whose value is nearer,
and if both are as near the even one. -/
inductive Nearer (low high q : ℚ) (a : ℕ) : ℕ → Prop where
  | lower (less : q - low < high - q) : Nearer low high q a a
  | upper (less : high - q < q - low) : Nearer low high q a (a + 1)
  | tie {w : ℕ} (same : q - low = high - q) (neighbour : w = a ∨ w = a + 1) (even : w % 2 = 0) :
      Nearer low high q a w

namespace Nearer

variable {low high q : ℚ} {a w : ℕ}

theorem le_succ (nearer : Nearer low high q a w) : w ≤ a + 1 := by
  cases nearer with
  | lower => omega
  | upper => omega
  | tie => omega

/-- Scaling does not change which one is nearer. -/
theorem mul {t : ℚ} (nearer : Nearer low high q a w) (pos : 0 < t) :
    Nearer (low * t) (high * t) (q * t) a w := by
  cases nearer with
  | lower less =>
    exact .lower (by rw [← sub_mul, ← sub_mul]; exact mul_lt_mul_of_pos_right less pos)
  | upper less =>
    exact .upper (by rw [← sub_mul, ← sub_mul]; exact mul_lt_mul_of_pos_right less pos)
  | tie same neighbour even => exact .tie (by rw [← sub_mul, ← sub_mul, same]) neighbour even

/-- Words may be counted from another even word. -/
theorem add {b : ℕ} (nearer : Nearer low high q a w) (even : b % 2 = 0) :
    Nearer low high q (b + a) (b + w) := by
  cases nearer with
  | lower less => exact .lower less
  | upper less => exact .upper less
  | tie same neighbour even' => exact .tie same (by omega) (by omega)

/-- Where values grow with the words, no word is nearer than the nearer neighbour, and only if that
one is even is another as near. -/
theorem nearest {f : ℕ → ℚ} (mono : StrictMono f) (nearer : Nearer (f a) (f (a + 1)) q a w)
    (above : f a ≤ q) (below : q ≤ f (a + 1)) (k : ℕ) :
    |q - f w| ≤ |q - f k| ∧ (|q - f w| = |q - f k| → k = w ∨ w % 2 = 0) := by
  have low : |q - f a| = q - f a := abs_of_nonneg (by linarith)
  have high : |q - f (a + 1)| = f (a + 1) - q := by
    rw [abs_sub_comm]
    exact abs_of_nonneg (by linarith)
  have close : |q - f w| ≤ q - f a ∧ |q - f w| ≤ f (a + 1) - q := by
    cases nearer with
    | lower less => exact ⟨low.le, low.trans_le less.le⟩
    | upper less => exact ⟨high.trans_le less.le, high.le⟩
    | tie same neighbour even =>
      rcases neighbour with rfl | rfl
      · exact ⟨low.le, (low.trans same).le⟩
      · exact ⟨(high.trans same.symm).le, high.le⟩
  rcases Nat.lt_trichotomy k a with outside | rfl | inside
  · have further : q - f a < |q - f k| := by
      have grows := mono outside
      rw [abs_of_nonneg (by linarith)]
      linarith
    have strict := close.1.trans_lt further
    exact ⟨strict.le, fun same => absurd same strict.ne⟩
  · refine ⟨close.1.trans low.ge, fun same => ?_⟩
    cases nearer with
    | lower => exact .inl rfl
    | upper less => exact absurd (high.symm.trans (same.trans low)) less.ne
    | tie _ _ even => exact .inr even
  rcases Nat.eq_or_lt_of_le inside with rfl | outside
  · refine ⟨close.2.trans high.ge, fun same => ?_⟩
    cases nearer with
    | lower less => exact absurd (low.symm.trans (same.trans high)) less.ne
    | upper => exact .inl rfl
    | tie _ _ even => exact .inr even
  · have further : f (a + 1) - q < |q - f k| := by
      have grows := mono outside
      rw [abs_sub_comm, abs_of_nonneg (by linarith)]
      linarith
    have strict := close.2.trans_lt further
    exact ⟨strict.le, fun same => absurd same strict.ne⟩

end Nearer

/-- A quotient is rounded to the nearer of the whole numbers around it. -/
theorem nearer_roundQuotient (x : ℕ) {p : ℕ} (pos : 0 < p) :
    Nearer (x / p : ℕ) (x / p + 1 : ℕ) (x / p : ℚ) (x / p) (roundQuotient x p) := by
  have unit : (0 : ℚ) < p := by exact_mod_cast pos
  have whole : (x : ℚ) = p * (x / p : ℕ) + (x % p : ℕ) := by
    exact_mod_cast (Nat.div_add_mod x p).symm
  have low : (x / p : ℚ) - (x / p : ℕ) = (x % p : ℕ) / p := by
    rw [eq_div_iff unit.ne', sub_mul, div_mul_cancel₀ _ unit.ne']
    linarith
  have high : ((x / p + 1 : ℕ) : ℚ) - x / p = (p - (x % p : ℕ)) / p := by
    rw [eq_div_iff unit.ne', sub_mul, div_mul_cancel₀ _ unit.ne']
    push_cast
    linarith
  have middle (same : 2 * (x % p) = p) : (x / p : ℚ) - (x / p : ℕ) = (x / p + 1 : ℕ) - x / p := by
    have same' : 2 * ((x % p : ℕ) : ℚ) = p := by exact_mod_cast same
    rw [low, high, show (p : ℚ) - (x % p : ℕ) = (x % p : ℕ) by linarith]
  unfold roundQuotient
  simp only
  split
  · rename_i down
    rcases down with less | ⟨same, even⟩
    · refine .lower ?_
      have less' : 2 * ((x % p : ℕ) : ℚ) < p := by exact_mod_cast less
      rw [low, high]
      exact div_lt_div_of_pos_right (by linarith) unit
    · exact .tie (middle same) (.inl rfl) even
  · rename_i up
    rcases Nat.lt_trichotomy (2 * (x % p)) p with less | same | more
    · exact absurd (.inl less) up
    · exact .tie (middle same) (.inr rfl) (by omega)
    · refine .upper ?_
      have more' : (p : ℚ) < 2 * ((x % p : ℕ) : ℚ) := by exact_mod_cast more
      rw [low, high]
      exact div_lt_div_of_pos_right (by linarith) unit

namespace Magnitude

/-! ## Values of words -/

/-- The number that a magnitude stands for. Infinity stands for `2^1024`, the next one after the
greatest finite magnitude. -/
def value (m : Magnitude) : ℚ := units m / Nat.pow 2 1074

theorem value_strictMono : StrictMono value := by
  intro m k less
  have unit := unit_pos
  unfold value
  generalize Nat.pow 2 1074 = u at unit
  have unit' : (0 : ℚ) < u := by exact_mod_cast unit
  have units : (units m : ℚ) < units k := by exact_mod_cast units_strictMono less
  exact div_lt_div_of_pos_right units unit'

theorem value_steps {n e : ℕ} (digits : n ≤ 2 ^ 53) (place : e = 0 ∨ 2 ^ 52 ≤ n) :
    value (e * 2 ^ 52 + n) = n * (2 ^ e / Nat.pow 2 1074) := by
  rw [value, units_steps digits place, ← mul_div_assoc]
  push_cast
  rfl

theorem value_zero : value 0 = 0 := by
  rw [value, units_of_lt (by decide), Nat.cast_zero, zero_div]

theorem value_nonneg (m : Magnitude) : 0 ≤ value m := by
  unfold value
  positivity

/-! ## Rounding -/

/-- The number rounds to the magnitude: no other is nearer, and none is as near unless the last
digit of this one is even. -/
structure IsRounded (q : ℚ) (m : Magnitude) : Prop where
  nearest : ∀ k ≤ infinity, |q - m.value| ≤ |q - k.value|
  even : ∀ k ≤ infinity, |q - m.value| = |q - k.value| → k = m ∨ m % 2 = 0

/-- Where the nearer of the neighbours is beyond infinity, infinity is the nearest that there is. -/
theorem isRounded_min {q : ℚ} {a w : ℕ} (above : value a ≤ q) (below : q ≤ value (a + 1))
    (nearer : Nearer (value a) (value (a + 1)) q a w) : IsRounded q (min w infinity) := by
  rcases Nat.lt_or_ge infinity w with beyond | reach
  swap
  · rw [Nat.min_eq_left reach]
    have nearest := nearer.nearest value_strictMono above below
    exact ⟨fun k _ => (nearest k).1, fun k _ => (nearest k).2⟩
  have last : infinity ≤ a := Nat.le_of_lt_succ (beyond.trans_le nearer.le_succ)
  have reach : value infinity ≤ q := (value_strictMono.monotone last).trans above
  rw [Nat.min_eq_right beyond.le]
  refine ⟨fun k le => ?_, fun k le same => ?_⟩
  · have less := value_strictMono.monotone le
    rw [abs_of_nonneg (by linarith), abs_of_nonneg (by linarith)]
    linarith
  · have less := value_strictMono.monotone le
    rw [abs_of_nonneg (by linarith), abs_of_nonneg (by linarith)] at same
    exact .inl (value_strictMono.injective (by linarith))

/-- **What is nearest to a quotient is what the quotient rounds to.** -/
theorem isRounded_nearest (num : ℕ) {den : ℕ} (pos : 0 < den) :
    IsRounded (num / den) (nearest num den) := by
  have unit := unit_pos
  obtain ⟨digits, place⟩ := div_steps (num * Nat.pow 2 1074) pos
  unfold nearest
  simp only
  generalize (num * Nat.pow 2 1074 / den).log2 - 52 = e at digits place ⊢
  have step : 0 < den * 2 ^ e := Nat.mul_pos pos (Nat.two_pow_pos e)
  have low := value_steps digits.le place
  have high := value_steps (show _ + 1 ≤ _ from digits) (place.imp_right Nat.le_succ_of_le)
  rw [← Nat.add_assoc] at high
  have scale : (0 : ℚ) < 2 ^ e / Nat.pow 2 1074 := by
    generalize Nat.pow 2 1074 = u at unit ⊢
    have unit' : (0 : ℚ) < u := by exact_mod_cast unit
    positivity
  have quotient : (num / den : ℚ) =
      (num * Nat.pow 2 1074 : ℕ) / (den * 2 ^ e : ℕ) * (2 ^ e / Nat.pow 2 1074) := by
    generalize Nat.pow 2 1074 = u at unit ⊢
    push_cast
    field_simp
  have nearer := ((nearer_roundQuotient (num * Nat.pow 2 1074) step).mul scale).add
    (show e * 2 ^ 52 % 2 = 0 by omega)
  rw [← quotient, ← low, ← high] at nearer
  refine isRounded_min ?_ ?_ nearer
  · rw [low, quotient]
    exact mul_le_mul_of_nonneg_right Nat.cast_div_le scale.le
  · rw [high, quotient]
    refine mul_le_mul_of_nonneg_right ?_ scale.le
    rw [div_le_iff₀ (by exact_mod_cast step)]
    exact_mod_cast (Nat.lt_mul_div_succ _ step).le.trans_eq (Nat.mul_comm _ _)

/-- A number rounds to one magnitude only. -/
theorem IsRounded.unique {q : ℚ} {m k : ℕ} (first : IsRounded q m) (second : IsRounded q k)
    (reach : m ≤ infinity) (reach' : k ≤ infinity) : m = k := by
  wlog less : m < k generalizing m k
  · rcases Nat.eq_or_lt_of_le (Nat.le_of_not_lt less) with same | more
    · exact same.symm
    · exact (this second first reach' reach more).symm
  have same := le_antisymm (first.nearest k reach') (second.nearest m reach)
  have even : m % 2 = 0 := (first.even k reach' same).resolve_left less.ne'
  have even' : k % 2 = 0 := (second.even m reach same.symm).resolve_left less.ne
  -- Two even words have an odd one between them, which is nearer.
  have between : m + 1 < k := by omega
  have grows := value_strictMono (Nat.lt_succ_self m)
  have grows' := value_strictMono between
  have middle : q - value m = value k - q := by
    rcases abs_eq_abs.mp same with equal | opposite
    · linarith
    · linarith
  have nearer : |q - value (m + 1)| < |q - value m| := by
    rw [abs_of_pos (show 0 < q - value m by linarith)]
    exact abs_lt.mpr ⟨by linarith, by linarith⟩
  exact absurd (first.nearest (m + 1) (between.le.trans reach')) nearer.not_ge

/-- What rounds to a magnitude is as far from its opposite only where the magnitude is zero. -/
theorem IsRounded.value_eq_zero {q : ℚ} {m : Magnitude} (rounded : IsRounded q m)
    (same : |q - m.value| = |q + m.value|) : m.value = 0 := by
  rcases abs_eq_abs.mp same with equal | opposite
  · linarith
  · obtain rfl : q = 0 := by linarith
    have least := rounded.nearest 0 (Nat.zero_le _)
    rw [value_zero, sub_zero, abs_zero, zero_sub, abs_neg] at least
    exact abs_eq_zero.mp (least.antisymm (abs_nonneg _))

theorem nearest_le_infinity (num den : ℕ) : nearest num den ≤ infinity := Nat.min_le_right _ _

/-- The magnitude nearest to a number is what the number rounds to. -/
theorem isRounded_iff {q : ℚ} {m : Magnitude} (nonneg : 0 ≤ q) (reach : m ≤ infinity) :
    IsRounded q m ↔ nearestTo q = m := by
  have rounded := isRounded_nearest q.num.natAbs q.den_pos
  have quotient : (q.num.natAbs / q.den : ℚ) = q := by
    have sign : ((q.num.natAbs : ℤ) : ℚ) = q.num := by
      rw [Int.natAbs_of_nonneg (Rat.num_nonneg.mpr nonneg)]
    rw [← Int.cast_natCast, sign, Rat.num_div_den]
  rw [quotient] at rounded
  constructor
  · exact fun other => rounded.unique other (nearest_le_infinity _ _) reach
  · rintro rfl
    exact rounded

/-- What is nearest to a greater number is no less. -/
theorem nearestTo_mono {p q : ℚ} (nonneg : 0 ≤ p) (le : p ≤ q) : nearestTo p ≤ nearestTo q := by
  have cross : p.num.natAbs * q.den ≤ q.num.natAbs * p.den := by
    have sign := Int.natAbs_of_nonneg (Rat.num_nonneg.mpr nonneg)
    have sign' := Int.natAbs_of_nonneg (Rat.num_nonneg.mpr (nonneg.trans le))
    have whole := (Rat.le_iff p q).mp le
    rw [← sign, ← sign'] at whole
    exact_mod_cast whole
  calc nearestTo p
      = nearest (p.num.natAbs * q.den) (p.den * q.den) := (nearest_mul_mul _ _ q.den_pos).symm
    _ ≤ nearest (q.num.natAbs * p.den) (p.den * q.den) :=
        nearest_mono (Nat.mul_pos p.den_pos q.den_pos) cross
    _ = nearestTo q := by rw [Nat.mul_comm p.den, nearest_mul_mul _ _ p.den_pos, nearestTo]

end Magnitude

/-! ## Signs -/

/-- A number with a sign. -/
def signed (negative : Bool) (q : ℚ) : ℚ := if negative then -q else q

theorem abs_signed (negative : Bool) (q : ℚ) : |signed negative q| = |q| := by
  cases negative with
  | true => exact abs_neg q
  | false => rfl

theorem signed_abs (q : ℚ) : signed (q < 0) |q| = q := by
  by_cases negative : q < 0
  · simp [signed, negative, abs_of_neg]
  · simp [signed, negative, abs_of_nonneg (not_lt.mp negative)]

theorem signed_sub (negative : Bool) (p q : ℚ) :
    signed negative p - signed negative q = signed negative (p - q) := by
  cases negative with
  | true => exact (neg_sub_neg p q).trans (neg_sub p q).symm
  | false => rfl

theorem signed_not (negative : Bool) (q : ℚ) : signed (!negative) q = signed negative (-q) := by
  cases negative with
  | true => exact (neg_neg q).symm
  | false => rfl

/-- Among numbers of one sign the signs do not matter for how near they are. -/
theorem abs_signed_sub (negative : Bool) (p q : ℚ) :
    |signed negative p - signed negative q| = |p - q| := by
  rw [signed_sub, abs_signed]

namespace Binary64

/-- The number that a double stands for, its infinities too. Both zeros stand for zero. -/
def value (x : Binary64) : ℚ := signed x.isNegative x.magnitude.value

/-- The number rounds to the double: no other double is nearer, and none of another value is as
near unless the last digit of this one is even. -/
structure IsNearest (x : Binary64) (q : ℚ) : Prop where
  nearest : ∀ y : Binary64, y.isNaN = false → |q - x.value| ≤ |q - y.value|
  even : ∀ y : Binary64, y.isNaN = false → |q - x.value| = |q - y.value| →
    y.value = x.value ∨ x.magnitude % 2 = 0

theorem abs_value (x : Binary64) : |x.value| = x.magnitude.value := by
  rw [value, abs_signed, abs_of_nonneg (Magnitude.value_nonneg _)]

/-- No double is nearer than one of its magnitude with the other sign could be. -/
theorem abs_sub_value_le (q : ℚ) (x : Binary64) : |(|q|) - x.magnitude.value| ≤ |q - x.value| := by
  rw [← abs_value]
  exact abs_abs_sub_abs_le q x.value

/-- The magnitudes of doubles that are no NaNs go up to that of the infinities. -/
theorem isNaN_eq_false {x : Binary64} : x.isNaN = false ↔ x.magnitude ≤ Magnitude.infinity := by
  simp [isNaN]

/-- What rounds to the magnitude of a double rounds to the double, if it has its sign. -/
theorem isNearest_signed {x : Binary64} {q : ℚ} (nonneg : 0 ≤ q)
    (rounded : Magnitude.IsRounded q x.magnitude) : x.IsNearest (signed x.isNegative q) := by
  have here : |signed x.isNegative q - x.value| = |q - x.magnitude.value| := abs_signed_sub _ _ _
  have there : ∀ y : Binary64,
      |q - y.magnitude.value| ≤ |signed x.isNegative q - y.value| := by
    intro y
    have le := abs_sub_value_le (signed x.isNegative q) y
    rwa [abs_signed, abs_of_nonneg nonneg] at le
  constructor
  · intro y number
    rw [here]
    exact (rounded.nearest _ (isNaN_eq_false.mp number)).trans (there y)
  · intro y number same
    rw [here] at same
    have equal := le_antisymm (rounded.nearest _ (isNaN_eq_false.mp number)) (same ▸ there y)
    refine (rounded.even _ (isNaN_eq_false.mp number) equal).imp_left fun word => ?_
    unfold value at same ⊢
    rw [word] at same ⊢
    by_cases signs : y.isNegative = x.isNegative
    · rw [signs]
    -- Two doubles of both signs are as near only where they are zeros.
    · rw [Bool.eq_not.mpr signs, signed_not] at same ⊢
      rw [abs_signed_sub, sub_neg_eq_add] at same
      rw [rounded.value_eq_zero same, neg_zero]

/-- Each magnitude is that of a double with the sign of a given number. -/
theorem exists_sameSign (q : ℚ) {k : Magnitude} (reach : k ≤ .infinity) :
    ∃ y : Binary64, y.isNaN = false ∧ y.magnitude = k ∧ |q - y.value| = |(|q|) - k.value| := by
  have signless : k < 0x8000000000000000 := Nat.lt_of_le_of_lt reach (by decide)
  refine ⟨ofParts (q < 0) k, ?_, magnitude_ofParts _ signless, ?_⟩
  · rwa [isNaN_eq_false, magnitude_ofParts _ signless]
  · have values : value (ofParts (q < 0) k) = signed (q < 0) k.value := by
      rw [value, isNegative_ofParts _ signless, magnitude_ofParts _ signless]
    have distance := abs_signed_sub (q < 0) |q| k.value
    rwa [signed_abs, ← values] at distance

/-- What rounds to a double rounds to its magnitude, the sign apart. -/
theorem IsNearest.isRounded {x : Binary64} {q : ℚ} (nearest : x.IsNearest q) :
    Magnitude.IsRounded |q| x.magnitude := by
  have here := abs_sub_value_le q x
  constructor
  · intro k reach
    obtain ⟨y, number, _, distance⟩ := exists_sameSign q reach
    rw [← distance]
    exact here.trans (nearest.nearest y number)
  · intro k reach same
    obtain ⟨y, number, rfl, distance⟩ := exists_sameSign q reach
    rw [← distance] at same
    have equal := le_antisymm (nearest.nearest y number) (same ▸ here)
    refine (nearest.even y number equal).imp_left fun values => ?_
    have magnitudes := congrArg abs values
    rw [abs_value, abs_value] at magnitudes
    exact Magnitude.value_strictMono.injective magnitudes

end Binary64
end ShortForm
