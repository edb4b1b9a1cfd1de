import Mathlib.Data.List.DropRight
import ShortForm.Proofs.Decimal.Shortest
import ShortForm.Proofs.Literal

/-!
# Literals of doubles

The literal of a finite double is a decimal without an exponent. It begins with a minus sign just
where the sign of the double is set, has no zero in front that could be left out, and none at the
end except that one digit always stands behind the point. What it amounts to rounds to the double,
and no decimal with fewer significant digits does (`Literal.float_shortest`).
-/

namespace ShortForm

/-! ## Significant digits -/

/-- The digits from the first to the last that are no zeros. -/
def Numeral.significantDigits (n : Numeral) : List Char :=
  (((n.whole ++ n.fraction.getD []).dropWhile (· = '0')).reverse.dropWhile (· = '0')).reverse

/-- The number that is written, with its sign. -/
def Numeral.toRat (n : Numeral) : ℚ := signed n.negative n.exact

theorem Numeral.exact_nonneg (n : Numeral) : 0 ≤ n.exact := by
  unfold exact
  positivity

namespace Decimal

variable {d : Decimal}

theorem dropWhile_replicate_zero (n : ℕ) (ds : List Char) :
    (List.replicate n '0' ++ ds).dropWhile (· = '0') = ds.dropWhile (· = '0') :=
  List.dropWhile_append_of_pos fun _ mem => decide_eq_true (List.eq_of_mem_replicate mem)

/-- The significant digits of a decimal end with one that is no zero. -/
theorem dropWhile_reverse_significant (d : Decimal) :
    d.significant.reverse.dropWhile (· = '0') = d.significant.reverse := by
  rw [significant, List.reverse_reverse, List.dropWhile_idempotent]

theorem getLast?_significant_ne (d : Decimal) : d.significant.getLast? ≠ some '0' := by
  have front := List.head?_dropWhile_not (· = '0') (Nat.toDigits 10 d.coefficient).reverse
  rw [← List.head?_reverse, significant, List.reverse_reverse]
  intro zero
  rw [zero] at front
  exact absurd rfl (of_decide_eq_false front)

/-- A numeral with the significant digits of a decimal among zeros has these significant digits. -/
theorem significantDigits_eq {n : Numeral} (pos : 0 < d.coefficient) {before behind : ℕ}
    (digits : n.whole ++ n.fraction.getD [] =
      List.replicate before '0' ++ (d.significant ++ List.replicate behind '0')) :
    n.significantDigits = d.significant := by
  obtain ⟨c, ds, eq, nonzero⟩ := significant_cons pos
  have front : (d.significant ++ List.replicate behind '0').dropWhile (· = '0') =
      d.significant ++ List.replicate behind '0' := by
    rw [eq, List.cons_append]
    exact List.dropWhile_cons_of_neg (by simpa using nonzero)
  rw [Numeral.significantDigits, digits, dropWhile_replicate_zero, front, List.reverse_append,
    List.reverse_replicate, dropWhile_replicate_zero, dropWhile_reverse_significant,
    List.reverse_reverse]

/-- Every style shows the significant digits of the decimal. -/
theorem significantDigits_numeral (style : Style) (negative : Bool) (pos : 0 < d.coefficient) :
    (d.numeral style negative).significantDigits = d.significant := by
  unfold numeral
  split
  · obtain ⟨_, _, digits, _⟩ := digits_positional negative d
    exact significantDigits_eq pos digits
  · have digits : (d.scientificNumeral negative).whole ++
        (d.scientificNumeral negative).fraction.getD [] =
          List.replicate 0 '0' ++ (d.significant ++ List.replicate 0 '0') := by
      simp [digits_scientific]
    exact significantDigits_eq pos digits

/-! ## Positional form -/

/-- In positional form there is a fraction and no exponent, and the fraction is one zero or ends
with another digit. -/
theorem positionalNumeral_eq (negative : Bool) (pos : 0 < d.coefficient) :
    ∃ whole fraction, d.positionalNumeral negative = ⟨negative, whole, some fraction, none⟩ ∧
      (fraction = ['0'] ∨ fraction.getLast? ≠ some '0') := by
  have last := getLast?_significant_ne d
  obtain ⟨c, ds, eq, _⟩ := significant_cons pos
  unfold positionalNumeral
  split
  · refine ⟨_, _, rfl, .inr ?_⟩
    rw [List.getLast?_append_of_ne_nil _ (by simp [eq])]
    exact last
  · refine ⟨_, _, rfl, ?_⟩
    split
    · exact .inl rfl
    · rename_i some
      refine .inr ?_
      rw [List.getLast?_drop]
      split
      · simp
      · exact last

/-- The numeral of a literal is in positional form. -/
theorem numeral_literal (negative : Bool) (d : Decimal) :
    d.numeral Literal.floatStyle negative = d.positionalNumeral negative := if_pos rfl

end Decimal

namespace Binary64

variable {x : Binary64}

/-- The numeral of a literal has no exponent, and its fraction is one zero or ends with another
digit. -/
theorem numeral_literal_eq (finite : x.isFinite) :
    ∃ whole fraction, x.numeral Literal.floatStyle = ⟨x.isNegative, whole, some fraction, none⟩ ∧
      (fraction = ['0'] ∨ fraction.getLast? ≠ some '0') := by
  unfold numeral
  split
  · exact ⟨_, _, rfl, .inl rfl⟩
  · rename_i nonzero
    rw [Decimal.numeral_literal]
    exact Decimal.positionalNumeral_eq x.isNegative
      (Decimal.coefficient_shortest _ (of_decide_eq_true finite) nonzero)

/-- The significant digits that are written are those of the shortest decimal. -/
theorem significantDigits_numeral (style : Decimal.Style) (finite : x.isFinite)
    (nonzero : x.magnitude ≠ 0) :
    (x.numeral style).significantDigits = (Decimal.shortest style.tie x.magnitude).significant := by
  have pos := Decimal.coefficient_shortest style.tie (of_decide_eq_true finite) nonzero
  rw [numeral, if_neg nonzero, Decimal.significantDigits_numeral style x.isNegative pos]

/-- What is written rounds to the double. -/
theorem isNearest_numeral (finite : x.isFinite) :
    x.IsNearest (x.numeral Literal.floatStyle).toRat := by
  have reach : x.magnitude ≤ Magnitude.infinity := (of_decide_eq_true finite).le
  have nonneg := (x.numeral Literal.floatStyle).exact_nonneg
  have rounded := (Magnitude.isRounded_iff nonneg reach).mpr
    (nearestTo_numeral Literal.floatStyle finite)
  have nearest := isNearest_signed nonneg rounded
  rwa [← negative_numeral Literal.floatStyle x] at nearest

/-- No decimal with fewer significant digits rounds to the double. -/
theorem not_isNearest_of_lt (finite : x.isFinite) (nonzero : x.magnitude ≠ 0) {c e : ℤ}
    (few : c.natAbs < 10 ^ ((x.numeral Literal.floatStyle).significantDigits.length - 1)) :
    ¬ x.IsNearest (c * 10 ^ e) := by
  intro nearest
  have below : x.magnitude < Magnitude.infinity := of_decide_eq_true finite
  have back := (Magnitude.isRounded_iff (abs_nonneg _) below.le).mp nearest.isRounded
  have sign : |(c * 10 ^ e : ℚ)| = c.natAbs * 10 ^ e := by
    rw [abs_mul, abs_of_pos (show (0 : ℚ) < 10 ^ e by positivity), Nat.cast_natAbs, Int.cast_abs]
  rw [sign] at back
  have digits := Decimal.pow_le_of_nearestTo below nonzero Literal.floatStyle.tie back
  rw [significantDigits_numeral _ finite nonzero] at few
  exact absurd few (Nat.not_lt.mpr digits)

end Binary64

namespace Literal

/-- **Literals of doubles are shortest decimals that determine the double.** The literal of a finite
double is a minus sign where the sign of the double is set, digits without a superfluous zero in
front, a point, and digits that end with a zero only where it is the only one. As an exact number it
rounds to the double, and if the double is not zero no decimal with fewer significant digits does.
No other finite double has the same literal. -/
theorem float_shortest (x : Binary64) (finite : x.isFinite) : ∃ whole fraction : List Char,
    let n : Numeral := ⟨x.isNegative, whole, some fraction, none⟩
    (float x).toList = (if x.isNegative then ['-'] else []) ++ (whole ++ '.' :: fraction) ∧
    Numeral.IsWhole whole ∧ Numeral.IsDigits fraction ∧
    (fraction = ['0'] ∨ fraction.getLast? ≠ some '0') ∧
    x.IsNearest n.toRat ∧
    (x.magnitude ≠ 0 → ∀ c e : ℤ, c.natAbs < 10 ^ (n.significantDigits.length - 1) →
      ¬ x.IsNearest (c * 10 ^ e)) ∧
    ∀ y : Binary64, y.isFinite → float y = float x → y = x := by
  obtain ⟨whole, fraction, numeral, last⟩ := Binary64.numeral_literal_eq finite
  have spelled := Binary64.spelledBy_decimal floatStyle finite
  have nearest := Binary64.isNearest_numeral finite
  have shortest := fun nonzero c e => @Binary64.not_isNearest_of_lt x finite nonzero c e
  rw [numeral] at spelled nearest shortest
  rw [toList_float finite]
  generalize x.decimal floatStyle = text at spelled ⊢
  obtain ⟨_, isWhole, isFraction, isExponent⟩ := spelled
  cases isFraction with
  | digits isFraction =>
    cases isExponent with
    | absent =>
      rw [List.append_nil]
      refine ⟨whole, fraction, rfl, isWhole, isFraction, last, nearest, shortest,
        fun y finite' same => ?_⟩
      have texts := congrArg String.toList same
      rw [toList_float finite, toList_float finite'] at texts
      exact Binary64.decimal_injective finite' finite texts

/-- The double of a power of two, below which the next double is nearer than above. -/
theorem float_shortest_power :
    ∃ whole fraction, "0.00000000000005684341886080802".toList = whole ++ '.' :: fraction ∧
      (⟨0x3d30000000000000⟩ : Binary64).IsNearest
        (Numeral.toRat ⟨false, whole, some fraction, none⟩) := by
  have text : (float ⟨0x3d30000000000000⟩).toList =
      "0.00000000000005684341886080802".toList := by decide +kernel
  obtain ⟨whole, fraction, written, _, _, _, nearest, _⟩ :=
    float_shortest ⟨0x3d30000000000000⟩ (by decide)
  exact ⟨whole, fraction, text.symm.trans written, nearest⟩

end Literal
end ShortForm
