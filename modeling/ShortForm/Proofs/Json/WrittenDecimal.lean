import ShortForm.Proofs.Decimal
import ShortForm.Proofs.Json.SpelledNumber

/-!
# Decimals as numerals

The text of a finite double is a numeral: `Binary64.numeral` says which, in every style
(`Binary64.spelledBy_decimal`). What it amounts to, exactly, is the decimal of the double, whatever
the layout (`Decimal.exact_numeral`), so that the double is the nearest to what is written for it
(`Binary64.nearestTo_numeral`), and two finite doubles are never written alike
(`Binary64.decimal_injective`).
-/

namespace ShortForm

/-! ## What a numeral amounts to -/

namespace Numeral

/-- All digits of a numeral as one whole number. -/
def significand (n : Numeral) : ℕ := Nat.ofDigitChars 10 (n.whole ++ n.fraction.getD []) 0

/-- The exponent that a numeral is written with. -/
def writtenExponent (n : Numeral) : ℤ :=
  match n.exponent with
  | none => 0
  | some (negative, ds) =>
    let e := Nat.ofDigitChars 10 ds 0
    if negative then -e else e

/-- The exponent of the last digit. -/
def lastExponent (n : Numeral) : ℤ := n.writtenExponent - (n.fraction.getD []).length

/-- The number that is written, its sign apart and not rounded. -/
def exact (n : Numeral) : ℚ := n.significand * 10 ^ n.lastExponent

/-- Digits that begin with no zero make at least the power of ten at the first. -/
theorem pow_le_ofDigitChars {c : Char} (digit : c.isDigit) (nonzero : c ≠ '0') (ds : List Char) :
    10 ^ ds.length ≤ Nat.ofDigitChars 10 (c :: ds) 0 := by
  have bounds := Char.isDigit_iff_toNat.mp digit
  have other : c.toNat ≠ '0'.toNat := fun same => nonzero (Char.toNat_inj.mp same)
  have first : 1 ≤ 10 * 0 + (c.toNat - '0'.toNat) := by omega
  rw [Nat.ofDigitChars_cons, Nat.ofDigitChars_eq_ofDigitChars_zero]
  exact Nat.le_trans (Nat.le_mul_of_pos_right _ first) (Nat.le_add_right _ _)

end Numeral

/-! ## Significant digits -/

namespace Decimal

variable {d : Decimal}

/-- Behind the significant digits of the coefficient there are zeros. -/
theorem toDigits_coefficient (d : Decimal) :
    ∃ zeros, Nat.toDigits 10 d.coefficient = d.significant ++ List.replicate zeros '0' := by
  have zeros := List.eq_replicate_length.mpr fun c (mem : c ∈
      (Nat.toDigits 10 d.coefficient).reverse.takeWhile (· = '0')) =>
    of_decide_eq_true (List.all_eq_true.mp List.all_takeWhile c mem)
  refine ⟨((Nat.toDigits 10 d.coefficient).reverse.takeWhile (· = '0')).length, ?_⟩
  calc Nat.toDigits 10 d.coefficient
      = ((Nat.toDigits 10 d.coefficient).reverse.takeWhile (· = '0') ++
          (Nat.toDigits 10 d.coefficient).reverse.dropWhile (· = '0')).reverse := by
        rw [List.takeWhile_append_dropWhile, List.reverse_reverse]
    _ = d.significant ++
          ((Nat.toDigits 10 d.coefficient).reverse.takeWhile (· = '0')).reverse :=
        List.reverse_append
    _ = _ := by rw [zeros, List.reverse_replicate, List.length_replicate]

/-- The zeros behind the significant digits are factors of ten. -/
theorem coefficient_eq {zeros : ℕ}
    (digits : Nat.toDigits 10 d.coefficient = d.significant ++ List.replicate zeros '0') :
    d.coefficient = 10 ^ zeros * Nat.ofDigitChars 10 d.significant 0 := by
  have amount : Nat.ofDigitChars 10 (Nat.toDigits 10 d.coefficient) 0 = d.coefficient :=
    Nat.ofDigitChars_ten_toDigits
  rw [digits, Nat.ofDigitChars_append, Nat.ofDigitChars_replicate_zero] at amount
  exact amount.symm

/-- **A decimal is given by its significant digits and its point.** -/
theorem value_eq (d : Decimal) :
    d.value = Nat.ofDigitChars 10 d.significant 0 * 10 ^ (d.point - d.significant.length) := by
  obtain ⟨zeros, digits⟩ := toDigits_coefficient d
  have length : d.point - d.significant.length = zeros + d.exponent := by
    rw [point, digits, List.length_append, List.length_replicate]
    omega
  rw [value, coefficient_eq digits, length, zpow_add₀ (by norm_num), zpow_natCast]
  push_cast
  rw [mul_comm (10 ^ zeros : ℚ), mul_assoc]

theorem isDigit_of_mem_significant {c : Char} (mem : c ∈ d.significant) : c.isDigit := by
  obtain ⟨zeros, digits⟩ := toDigits_coefficient d
  have digit : c ∈ Nat.toDigits 10 d.coefficient := digits ▸ List.mem_append_left _ mem
  exact Nat.isDigit_of_mem_toDigits (by decide) (by decide) digit

/-- The significant digits of a decimal other than zero begin with one that is no zero. -/
theorem significant_cons (pos : 0 < d.coefficient) :
    ∃ c ds, d.significant = c :: ds ∧ c ≠ '0' := by
  obtain ⟨zeros, digits⟩ := toDigits_coefficient d
  have amount := coefficient_eq digits
  have first := Numeral.head?_toDigits_ne pos
  rw [digits] at first
  cases eq : d.significant with
  | nil =>
    rw [eq] at amount
    exact absurd amount (Nat.ne_of_gt pos)
  | cons c ds =>
    rw [eq] at first
    exact ⟨c, ds, rfl, fun zero => first (congrArg some zero)⟩

/-- A numeral with the significant digits of a decimal among zeros, and with its point in the same
place, amounts to that decimal. -/
theorem exact_eq_value {n : Numeral} (before behind : ℕ)
    (digits : n.whole ++ n.fraction.getD [] =
      List.replicate before '0' ++ (d.significant ++ List.replicate behind '0'))
    (place : n.lastExponent + behind = d.point - d.significant.length) : n.exact = d.value := by
  have significand : n.significand = 10 ^ behind * Nat.ofDigitChars 10 d.significant 0 := by
    rw [Numeral.significand, digits, Nat.ofDigitChars_append, Nat.ofDigitChars_replicate_zero,
      Nat.mul_zero, Nat.ofDigitChars_append, Nat.ofDigitChars_replicate_zero]
  rw [Numeral.exact, value_eq, significand, ← place, zpow_add₀ (by norm_num), zpow_natCast]
  push_cast
  rw [mul_comm (10 ^ behind : ℚ), mul_assoc, mul_comm (10 ^ behind : ℚ)]

/-! ## Layouts -/

/-- The numeral of a decimal in positional form. -/
def positionalNumeral (negative : Bool) (d : Decimal) : Numeral :=
  if d.point ≤ 0 then
    ⟨negative, ['0'], some (List.replicate (-d.point).toNat '0' ++ d.significant), none⟩
  else
    let whole := d.point.toNat
    let fraction := d.significant.drop whole
    ⟨negative, d.significant.take whole ++ List.replicate (whole - d.significant.length) '0',
      some (if fraction = [] then ['0'] else fraction), none⟩

/-- The numeral of a decimal in scientific form. -/
def scientificNumeral (negative : Bool) (d : Decimal) : Numeral :=
  let exponent := d.point - 1
  let fraction := d.significant.drop 1
  ⟨negative, d.significant.take 1, if fraction = [] then none else some fraction,
    some (exponent < 0, Nat.toDigits 10 exponent.natAbs)⟩

/-- The numeral of a decimal in a style. -/
def numeral (style : Style) (negative : Bool) (d : Decimal) : Numeral :=
  if style.isPositional (d.point - 1) then d.positionalNumeral negative
  else d.scientificNumeral negative

theorem spelledBy_positional (negative : Bool) (pos : 0 < d.coefficient) :
    (d.positionalNumeral negative).SpelledBy
      ((if negative then ['-'] else []) ++ d.positional) := by
  have digit : ∀ c ∈ d.significant, c.isDigit := fun c mem => isDigit_of_mem_significant mem
  have zeros : ∀ n, ∀ c ∈ List.replicate n '0', c.isDigit := by
    intro n c mem
    rw [List.eq_of_mem_replicate mem]
    decide
  obtain ⟨c, ds, eq, nonzero⟩ := significant_cons pos
  unfold positionalNumeral positional
  split
  · have whole : Numeral.IsWhole ['0'] := Numeral.isWhole_toDigits 0
    have fraction : Numeral.IsDigits (List.replicate (-d.point).toNat '0' ++ d.significant) := by
      refine ⟨by simp [eq], fun c mem => ?_⟩
      rcases List.mem_append.mp mem with mem | mem
      · exact zeros _ c mem
      · exact digit c mem
    have spelled := Numeral.SpelledBy.mk negative whole (.digits fraction) .absent
    rw [List.append_nil] at spelled
    exact spelled
  · rename_i behind
    have whole : Numeral.IsWhole (d.significant.take d.point.toNat ++
        List.replicate (d.point.toNat - d.significant.length) '0') := by
      obtain ⟨n, place⟩ : ∃ n, d.point.toNat = n + 1 := ⟨d.point.toNat - 1, by omega⟩
      refine ⟨⟨by simp [eq, place], fun c mem => ?_⟩, fun zero => ?_⟩
      · rcases List.mem_append.mp mem with mem | mem
        · exact digit c (List.mem_of_mem_take mem)
        · exact zeros _ c mem
      · simp [eq, place, nonzero] at zero
    have fraction : Numeral.IsDigits (if d.significant.drop d.point.toNat = [] then ['0']
        else d.significant.drop d.point.toNat) := by
      split
      · exact Numeral.isDigits_toDigits 0
      · exact ⟨‹_›, fun c mem => digit c (List.mem_of_mem_drop mem)⟩
    have spelled := Numeral.SpelledBy.mk negative whole (.digits fraction) .absent
    rw [List.append_nil] at spelled
    exact spelled

theorem spelledBy_scientific (negative : Bool) (pos : 0 < d.coefficient) :
    (d.scientificNumeral negative).SpelledBy
      ((if negative then ['-'] else []) ++ d.scientific) := by
  have digit : ∀ c ∈ d.significant, c.isDigit := fun c mem => isDigit_of_mem_significant mem
  obtain ⟨c, ds, eq, _⟩ := significant_cons pos
  have whole : Numeral.IsWhole (d.significant.take 1) :=
    ⟨⟨by simp [eq], fun c mem => digit c (List.mem_of_mem_take mem)⟩, by simp [eq]⟩
  have fraction : Numeral.SpellsFraction
      (if d.significant.drop 1 = [] then none else some (d.significant.drop 1))
      (if d.significant.drop 1 = [] then [] else '.' :: d.significant.drop 1) := by
    split
    · exact .absent
    · exact .digits ⟨‹_›, fun c mem => digit c (List.mem_of_mem_drop mem)⟩
  have exponent : Numeral.SpellsExponent
      (some (decide (d.point - 1 < 0), Nat.toDigits 10 (d.point - 1).natAbs))
      ('e' :: (if d.point - 1 < 0 then '-' else '+') :: Nat.toDigits 10 (d.point - 1).natAbs) := by
    have digits := Numeral.isDigits_toDigits (d.point - 1).natAbs
    by_cases below : d.point - 1 < 0
    · simpa only [below, decide_true, if_true] using .minus (.inl rfl) digits
    · simpa only [below, decide_false, if_false] using .plus (.inl rfl) digits
  have spelled := Numeral.SpelledBy.mk negative whole fraction exponent
  rw [scientific, List.append_assoc]
  exact spelled

/-- The digits in positional form are the significant ones among zeros, and the point is in its
place. -/
theorem digits_positional (negative : Bool) (d : Decimal) : ∃ before behind : ℕ,
    (d.positionalNumeral negative).whole ++ (d.positionalNumeral negative).fraction.getD [] =
      List.replicate before '0' ++ (d.significant ++ List.replicate behind '0') ∧
    (d.positionalNumeral negative).lastExponent + behind = d.point - d.significant.length := by
  unfold positionalNumeral
  split
  · rename_i before
    refine ⟨1 + (-d.point).toNat, 0, ?_, ?_⟩
    · simp [List.replicate_add]
    · simp only [Numeral.lastExponent, Numeral.writtenExponent, Option.getD_some,
        List.length_append, List.length_replicate]
      omega
  · rename_i before
    by_cases ends : d.significant.drop d.point.toNat = []
    -- No digit is behind the point: zeros go on the digits up to it, and one stands behind it.
    · have short := List.drop_eq_nil_iff.mp ends
      refine ⟨0, d.point.toNat - d.significant.length + 1, ?_, ?_⟩
      · simp [ends, List.take_of_length_le short, List.replicate_succ']
      · simp only [Numeral.lastExponent, Numeral.writtenExponent, Option.getD_some, if_pos ends,
          List.length_singleton]
        omega
    · have long : d.point.toNat < d.significant.length := by
        simpa using mt List.drop_eq_nil_iff.mpr ends
      refine ⟨0, 0, ?_, ?_⟩
      · simp [ends, Nat.sub_eq_zero_of_le (Nat.le_of_lt long)]
      · simp only [Numeral.lastExponent, Numeral.writtenExponent, Option.getD_some, if_neg ends,
          List.length_drop]
        omega

theorem exact_positional (negative : Bool) (d : Decimal) :
    (d.positionalNumeral negative).exact = d.value := by
  obtain ⟨before, behind, digits, place⟩ := digits_positional negative d
  exact exact_eq_value before behind digits place

theorem fraction_scientific (negative : Bool) (d : Decimal) :
    (d.scientificNumeral negative).fraction.getD [] = d.significant.drop 1 := by
  simp only [scientificNumeral]
  split
  · rename_i none
    rw [none]
    rfl
  · rfl

/-- The digits in scientific form are the significant ones. -/
theorem digits_scientific (negative : Bool) (d : Decimal) :
    (d.scientificNumeral negative).whole ++ (d.scientificNumeral negative).fraction.getD [] =
      d.significant := by
  rw [fraction_scientific]
  exact List.take_append_drop 1 d.significant

theorem writtenExponent_scientific (negative : Bool) (d : Decimal) :
    (d.scientificNumeral negative).writtenExponent = d.point - 1 := by
  simp only [Numeral.writtenExponent, scientificNumeral, Nat.ofDigitChars_ten_toDigits,
    decide_eq_true_eq]
  split <;> omega

theorem exact_scientific (negative : Bool) (pos : 0 < d.coefficient) :
    (d.scientificNumeral negative).exact = d.value := by
  obtain ⟨c, ds, eq, _⟩ := significant_cons pos
  refine exact_eq_value 0 0 ?_ ?_
  · rw [digits_scientific]
    simp
  · rw [Numeral.lastExponent, fraction_scientific, writtenExponent_scientific, eq, List.drop_one,
      List.tail_cons, List.length_cons]
    omega

/-- **The text of a decimal is a numeral**, in every style. -/
theorem spelledBy_layOut (style : Style) (negative : Bool) (pos : 0 < d.coefficient) :
    (d.numeral style negative).SpelledBy
      ((if negative then ['-'] else []) ++ d.layOut style) := by
  unfold numeral layOut
  split
  · exact spelledBy_positional negative pos
  · exact spelledBy_scientific negative pos

/-- **What is written amounts to the decimal**, in every style. -/
theorem exact_numeral (style : Style) (negative : Bool) (pos : 0 < d.coefficient) :
    (d.numeral style negative).exact = d.value := by
  unfold numeral
  split
  · exact exact_positional negative d
  · exact exact_scientific negative pos

theorem negative_numeral (style : Style) (negative : Bool) (d : Decimal) :
    (d.numeral style negative).negative = negative := by
  unfold numeral positionalNumeral scientificNumeral
  split
  · split <;> rfl
  · rfl

/-- A decimal is never written with digits alone. -/
theorem marked_numeral (style : Style) (negative : Bool) (d : Decimal) :
    (d.numeral style negative).fraction ≠ none ∨ (d.numeral style negative).exponent ≠ none := by
  unfold numeral positionalNumeral scientificNumeral
  split
  · split <;> simp
  · simp

/-- The shortest decimal of a magnitude other than zero is not zero. -/
theorem coefficient_shortest (tie : Tie) {m : Magnitude} (finite : m < Magnitude.infinity)
    (nonzero : m ≠ 0) : 0 < (shortest tie m).coefficient := by
  refine Nat.pos_of_ne_zero fun zero => nonzero ?_
  have back := nearestTo_shortest tie finite
  rw [value, zero, Nat.cast_zero, zero_mul, Magnitude.nearestTo_zero] at back
  exact back.symm

end Decimal

/-! ## Doubles -/

namespace Binary64

variable {x y : Binary64}

/-- The numeral that a finite double is written as. -/
def numeral (style : Decimal.Style) (x : Binary64) : Numeral :=
  if x.magnitude = 0 then ⟨x.isNegative, ['0'], some ['0'], none⟩
  else (Decimal.shortest style.tie x.magnitude).numeral style x.isNegative

/-- **The text of a finite double is a numeral.** -/
theorem spelledBy_decimal (style : Decimal.Style) (finite : x.isFinite) :
    (x.numeral style).SpelledBy (x.decimal style) := by
  unfold numeral decimal
  split
  · have zero : Numeral.IsWhole ['0'] := Numeral.isWhole_toDigits 0
    exact .mk x.isNegative zero (.digits zero.1) .absent
  · rename_i nonzero
    exact Decimal.spelledBy_layOut style x.isNegative
      (Decimal.coefficient_shortest style.tie (of_decide_eq_true finite) nonzero)

theorem negative_numeral (style : Decimal.Style) (x : Binary64) :
    (x.numeral style).negative = x.isNegative := by
  unfold numeral
  split
  · rfl
  · exact Decimal.negative_numeral style x.isNegative _

/-- A double is never written with digits alone. -/
theorem marked_numeral (style : Decimal.Style) (x : Binary64) :
    (x.numeral style).fraction ≠ none ∨ (x.numeral style).exponent ≠ none := by
  unfold numeral
  split
  · simp
  · exact Decimal.marked_numeral style x.isNegative _

/-- **A finite double is the nearest to what is written for it**, in every style. -/
theorem nearestTo_numeral (style : Decimal.Style) (finite : x.isFinite) :
    .nearestTo (x.numeral style).exact = x.magnitude := by
  unfold numeral
  split
  · rename_i zero
    have digits : Numeral.significand ⟨x.isNegative, ['0'], some ['0'], none⟩ = 0 := rfl
    rw [Numeral.exact, digits, Nat.cast_zero, zero_mul, zero, Magnitude.nearestTo_zero]
  · rename_i nonzero
    have below := of_decide_eq_true finite
    rw [Decimal.exact_numeral style x.isNegative
      (Decimal.coefficient_shortest style.tie below nonzero)]
    exact Decimal.nearestTo_shortest style.tie below

/-- A finite double is told by its numeral. -/
theorem numeral_injective {style : Decimal.Style} (finite : x.isFinite) (finite' : y.isFinite)
    (same : x.numeral style = y.numeral style) : x = y := by
  refine eq_of_parts ?_ ?_
  · rw [← negative_numeral style x, same, negative_numeral]
  · rw [← nearestTo_numeral style finite, same, nearestTo_numeral style finite']

/-- **Two finite doubles are never written alike**, in any style. -/
theorem decimal_injective {style : Decimal.Style} (finite : x.isFinite) (finite' : y.isFinite)
    (same : x.decimal style = y.decimal style) : x = y :=
  numeral_injective finite finite'
    ((spelledBy_decimal style finite).unique (same ▸ spelledBy_decimal style finite'))

end Binary64
end ShortForm
