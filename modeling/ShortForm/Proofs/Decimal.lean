import Mathlib.Algebra.Order.Field.Rat
import Mathlib.Tactic.FieldSimp
import Mathlib.Tactic.Positivity
import ShortForm.Decimal
import ShortForm.Proofs.Binary64

/-!
# Decimals read back

The number that a decimal stands for, exactly, and the magnitude that is nearest to a number. The
shortest decimal of a finite magnitude reads back: the magnitude is the nearest to it
(`Decimal.nearestTo_shortest`). So two magnitudes never have the same decimal.
-/

namespace ShortForm

namespace Magnitude

/-- The magnitude nearest to a number, its sign apart. -/
def nearestTo (q : ℚ) : Magnitude := nearest q.num.natAbs q.den

/-- A quotient need not be in lowest terms. -/
theorem nearestTo_div (num : ℕ) {den : ℕ} (pos : 0 < den) :
    nearestTo (num / den) = nearest num den := by
  have cross : (num / den : ℚ).num.natAbs * den = num * (num / den : ℚ).den := by
    have sign : ((num / den : ℚ).num.natAbs : ℤ) = (num / den : ℚ).num :=
      Int.natAbs_of_nonneg (Rat.num_nonneg.mpr (by positivity))
    have lowest : (num / den : ℚ).num = (num / den : ℚ) * (num / den : ℚ).den :=
      (Rat.mul_den_eq_num _).symm
    have nonzero : (den : ℚ) ≠ 0 := by positivity
    have scaled : (((num / den : ℚ).num.natAbs : ℤ) : ℚ) * den = num * (num / den : ℚ).den := by
      rw [sign, lowest]
      field_simp
    exact_mod_cast scaled
  calc nearest (num / den : ℚ).num.natAbs (num / den : ℚ).den
      = nearest ((num / den : ℚ).num.natAbs * den) ((num / den : ℚ).den * den) :=
        (nearest_mul_mul _ _ pos).symm
    _ = nearest (num * (num / den : ℚ).den) (den * (num / den : ℚ).den) := by
        rw [cross, Nat.mul_comm _ den]
    _ = nearest num den := nearest_mul_mul _ _ (Rat.den_pos _)

/-- Zero is the nearest to itself. -/
theorem nearestTo_zero : nearestTo 0 = 0 := by
  have zero := nearestTo_div (units 0) unit_pos
  rw [nearest_units (by decide), show units 0 = 0 from rfl, Nat.cast_zero, zero_div] at zero
  exact zero

end Magnitude

namespace Decimal

/-- The number that a decimal stands for. -/
def value (d : Decimal) : ℚ := d.coefficient * 10 ^ d.exponent

/-- What is nearest to a multiple of `10^k` units of `10^-1074`. -/
theorem nearestTo_onGrid (c : ℕ) {k : ℕ} {exponent : ℤ} (place : exponent + 1074 = k) :
    .nearestTo (value ⟨c, exponent⟩) = Magnitude.nearest (c * Nat.pow 10 k) one := by
  have quotient : ∀ unit : ℕ, exponent + unit = k →
      value ⟨c, exponent⟩ = (c * 10 ^ k : ℕ) / (10 ^ unit : ℕ) := by
    intro unit place
    rw [value, eq_sub_of_add_eq place, zpow_sub₀ (by norm_num), zpow_natCast, zpow_natCast,
      ← mul_div_assoc]
    push_cast
    rfl
  have scaled := quotient 1074 place
  unfold one
  revert scaled
  generalize 1074 = unit
  intro scaled
  rw [scaled]
  exact Magnitude.nearestTo_div _ (Nat.pow_pos (by decide))

/-- The finest grid holds the magnitude itself. -/
theorem nearest_exact {m : Magnitude} (finite : m < Magnitude.infinity) :
    .nearest (exact m) one = m := by
  have ten : one = Nat.pow 2 1074 * Nat.pow 5 1074 := by
    unfold one
    generalize 1074 = k
    exact Nat.mul_pow 2 5 k
  have pos : 0 < Nat.pow 5 1074 := by
    generalize 1074 = k
    exact Nat.pow_pos (by decide)
  have common := Magnitude.nearest_mul_mul m.units (Nat.pow 2 1074) pos
  unfold exact
  rw [ten]
  exact common.trans (Magnitude.nearest_units finite)

/-- Only what reads back is chosen. -/
theorem readsBack_of_choose {tie : Tie} {low above step c : Nat} {readsBack : Nat → Bool}
    (chosen : choose tie low above step readsBack = some c) : readsBack c := by
  unfold choose at chosen
  split at chosen
  · rename_i back back'
    split at chosen
    · cases chosen
      exact back
    split at chosen
    · cases chosen
      exact back
    · cases chosen
      exact back'
  · rename_i back _
    cases chosen
    exact back
  · rename_i _ back'
    cases chosen
    exact back'
  · cases chosen

/-- What is found on a grid reads back. -/
theorem nearest_of_onGrid? {tie : Tie} {m : Magnitude} {k c : Nat}
    (found : onGrid? tie m k = some c) : .nearest (c * Nat.pow 10 k) one = m := by
  unfold onGrid? at found
  exact of_decide_eq_true (readsBack_of_choose found)

/-- What the search finds reads back, wherever it begins. -/
theorem nearestTo_search {found? : Nat → Option Nat} {finest : Nat} {m : Magnitude}
    (onGrid : ∀ k c, found? k = some c → .nearest (c * Nat.pow 10 k) one = m)
    (onFinest : .nearest finest one = m) (k : Nat) :
    .nearestTo (search found? finest k).value = m := by
  induction k with
  | zero =>
    have here := nearestTo_onGrid finest (show (-1074 : ℤ) + 1074 = (0 : ℕ) by omega)
    rw [show finest * Nat.pow 10 0 = finest from Nat.mul_one finest] at here
    exact here.trans onFinest
  | succ k ih =>
    unfold search
    split
    · rename_i c found
      have here := nearestTo_onGrid c (show (k + 1 - 1074 : ℤ) + 1074 = (k + 1 : ℕ) by omega)
      exact here.trans (onGrid (k + 1) c found)
    · exact ih

/-- **The shortest decimal of a finite magnitude reads back.** -/
theorem nearestTo_shortest (tie : Tie) {m : Magnitude} (finite : m < Magnitude.infinity) :
    .nearestTo (shortest tie m).value = m :=
  nearestTo_search (fun _ _ found => nearest_of_onGrid? found) (nearest_exact finite) _

end Decimal
end ShortForm
