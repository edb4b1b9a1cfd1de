import ShortForm.Proofs.Decimal.Tie
import ShortForm.Proofs.Literal.Float
import ShortForm.Proofs.Tree.RoundTrip

/-!
# Two notations of a double

A double is written in two ways, as JSON and as a literal. The layouts differ, but not what they
say: sign, significant digits and number are the same. The one exception are ties, because JSON
takes the decimal with the even last digit and a literal the greater one. Then the two differ in the
last digit, and stand for the two ends of a step (`Literal.float_notations`).
-/

namespace ShortForm

/-- Two numerals say the same: sign, significant digits and number. -/
def Numeral.Agrees (n m : Numeral) : Prop :=
  n.negative = m.negative ∧ n.significantDigits = m.significantDigits ∧ n.toRat = m.toRat

namespace Binary64

/-- The two notations of a double are numerals that say the same. -/
def NotationsAgree (x : Binary64) : Prop :=
  ∃ n m : Numeral, n.SpelledBy (Value.float x).text.toList ∧
    m.SpelledBy (Literal.float x).toList ∧ n.Agrees m

/-- What is written is the shortest decimal, with the sign of the double. -/
theorem toRat_numeral (style : Decimal.Style) {x : Binary64} (finite : x.isFinite)
    (nonzero : x.magnitude ≠ 0) :
    (x.numeral style).toRat =
      signed x.isNegative (Decimal.shortest style.tie x.magnitude).value := by
  have pos := Decimal.coefficient_shortest style.tie (of_decide_eq_true finite) nonzero
  rw [Numeral.toRat, negative_numeral, numeral, if_neg nonzero, Decimal.exact_numeral _ _ pos]

theorem spelledBy_text {x : Binary64} (finite : x.isFinite) :
    (x.numeral Number.floatStyle).SpelledBy (Value.float x).text.toList := by
  rw [Value.toList_text_float finite]
  exact spelledBy_decimal Number.floatStyle finite

theorem spelledBy_literal {x : Binary64} (finite : x.isFinite) :
    (x.numeral Literal.floatStyle).SpelledBy (Literal.float x).toList := by
  rw [Literal.toList_float finite]
  exact spelledBy_decimal Literal.floatStyle finite

/-- A quarter above `2^50` is midway between two decimals with seventeen digits, and the notations
do not agree. -/
theorem not_notationsAgree : ¬ ∀ x : Binary64, x.isFinite → x.NotationsAgree := by
  intro agree
  have finite : (⟨0x4310000000000001⟩ : Binary64).isFinite := by decide
  obtain ⟨n, m, spelled, spelled', _, digits, _⟩ := agree ⟨0x4310000000000001⟩ finite
  rw [spelled.unique (spelledBy_text finite), spelled'.unique (spelledBy_literal finite)] at digits
  revert digits
  decide +kernel

end Binary64

open Decimal in
/-- **Two notations, one number, but for ties.** The text and the literal of a finite double are
numerals with the sign of the double, and have the same significant digits, but maybe the last one.
Where the double is not midway between two shortest decimals, they have the last one in common too
and stand for the same number. Where it is, the text is the lower of the two decimals, which is
even, and the literal the other. -/
theorem Literal.float_notations (x : Binary64) (finite : x.isFinite) : ∃ n m : Numeral,
    n.SpelledBy (Value.float x).text.toList ∧ m.SpelledBy (float x).toList ∧
    n.negative = x.isNegative ∧ m.negative = x.isNegative ∧
    n.significantDigits.dropLast = m.significantDigits.dropLast ∧
    ((∀ d : Decimal, ¬ d.IsTie x.magnitude) → n.Agrees m) ∧
    ∀ d : Decimal, d.IsTie x.magnitude →
      n.significantDigits = d.significant ∧ n.toRat = signed x.isNegative d.value ∧
      m.significantDigits = d.next.significant ∧ m.toRat = signed x.isNegative d.next.value := by
  have below : x.magnitude < Magnitude.infinity := of_decide_eq_true finite
  have sign := Binary64.negative_numeral Number.floatStyle x
  have sign' := Binary64.negative_numeral floatStyle x
  refine ⟨x.numeral Number.floatStyle, x.numeral floatStyle, Binary64.spelledBy_text finite,
    Binary64.spelledBy_literal finite, sign, sign', ?_⟩
  by_cases zero : x.magnitude = 0
  · have same : x.numeral Number.floatStyle = x.numeral floatStyle := by
      rw [Binary64.numeral, Binary64.numeral, if_pos zero, if_pos zero]
    rw [same]
    exact ⟨rfl, fun _ => ⟨rfl, rfl, rfl⟩, fun d tie => absurd zero tie.pos.1⟩
  rw [Numeral.Agrees, sign, sign', Binary64.significantDigits_numeral _ finite zero,
    Binary64.significantDigits_numeral _ finite zero, Binary64.toRat_numeral _ finite zero,
    Binary64.toRat_numeral _ finite zero]
  have even : Number.floatStyle.tie = .even := rfl
  have up : floatStyle.tie = .up := rfl
  rw [even, up]
  refine ⟨?_, fun noTie => ?_, fun d tie => ?_⟩
  · by_cases tied : ∃ d : Decimal, d.IsTie x.magnitude
    · obtain ⟨d, tie⟩ := tied
      rw [tie.shortest_eq.1, tie.shortest_eq.2]
      exact tie.dropLast_significant
    · rw [shortest_even_eq_up below zero (not_exists.mp tied)]
  · rw [shortest_even_eq_up below zero noTie]
    exact ⟨rfl, rfl, rfl⟩
  · rw [tie.shortest_eq.1, tie.shortest_eq.2]
    exact ⟨rfl, rfl, rfl, rfl⟩

/-- The digits of a quarter above `2^50` end with a 2 and a 3. -/
theorem Literal.float_notations_midway :
    let x : Binary64 := ⟨0x4310000000000001⟩
    let d : Decimal := ⟨11258999068426242, -1⟩
    x.isFinite ∧ d.IsTie x.magnitude ∧ ∃ n m : Numeral,
      n.SpelledBy "1125899906842624.2".toList ∧ m.SpelledBy "1125899906842624.3".toList ∧
      n.toRat = d.value ∧ m.toRat = d.next.value := by
  intro x d
  have finite : x.isFinite := by decide
  have below : x.magnitude < Magnitude.infinity := of_decide_eq_true finite
  have place : d = ⟨11258999068426242, (1073 : ℕ) - 1074⟩ := rfl
  have tie : d.IsTie x.magnitude := by
    rw [place]
    refine ⟨by decide, ?_, ?_, ?_, fun c e reads => ?_⟩
    · exact (Decimal.nearestTo_onGrid_iff 11258999068426242 1073).mpr (by decide +kernel)
    · exact (Decimal.nearestTo_onGrid_iff 11258999068426243 1073).mpr (by decide +kernel)
    · exact (Decimal.midway_iff 11258999068426242 1073).mpr (by decide +kernel)
    · have nonzero : x.magnitude ≠ 0 := by decide
      have digits : (Decimal.shortest .even x.magnitude).significant.length - 1 = 16 := by
        decide +kernel
      have many := Decimal.pow_le_of_nearestTo below nonzero .even reads
      rw [digits] at many
      exact Decimal.length_toDigits_le_length (by decide) many
  obtain ⟨n, m, spelled, spelled', _, _, _, _, values⟩ := float_notations x finite
  have text : (Value.float x).text = "1125899906842624.2" := by decide +kernel
  have literal : float x = "1125899906842624.3" := by decide +kernel
  obtain ⟨_, number, _, number'⟩ := values d tie
  rw [text] at spelled
  rw [literal] at spelled'
  exact ⟨finite, tie, n, m, spelled, spelled', number, number'⟩

end ShortForm
