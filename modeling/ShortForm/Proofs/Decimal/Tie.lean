import Mathlib.Tactic.Ring
import ShortForm.Proofs.Decimal.Shortest

/-!
# Ties

Two decimals can be equally near to a magnitude, both as short as can be. Then, and only then, it
matters how a tie is broken: in all other cases the shortest decimal is the same either way
(`Decimal.shortest_even_eq_up`). In a tie one style takes the lower decimal, which has an even last
digit, and the other the next (`Decimal.IsTie.shortest_eq`).

A tie is described without the search: as two neighbours on a grid, with the magnitude midway
between them, that read back and that no shorter decimal undercuts. That the search stops on just
this grid is what has to be shown. On a coarser one nothing reads back, or it would be shorter, and
on this one both neighbours do.
-/

namespace ShortForm

/-- A finite magnitude is counted exactly in units of `10^-1074`. -/
theorem Magnitude.value_eq_exact (m : Magnitude) :
    m.value = Decimal.exact m * 10 ^ (-1074 : ℤ) := by
  have place : (-1074 : ℤ) = -(1074 : ℕ) := by norm_num
  rw [place, value, Decimal.exact]
  generalize 1074 = e
  have ten : (10 : ℚ) ^ e = 2 ^ e * 5 ^ e := by rw [← mul_pow]; norm_num
  simp only [Nat.pow_eq, Nat.cast_mul, Nat.cast_pow, Nat.cast_ofNat, zpow_neg, zpow_natCast, ten]
  field_simp

namespace Decimal

/-- The next decimal of the same exponent. -/
def next (d : Decimal) : Decimal := ⟨d.coefficient + 1, d.exponent⟩

/-- The magnitude lies midway between the decimal, whose last digit is even, and the next one. Both
read back, and no decimal that does has a shorter coefficient. -/
structure IsTie (d : Decimal) (m : Magnitude) : Prop where
  even : d.coefficient % 2 = 0
  back : .nearestTo d.value = m
  next_back : .nearestTo d.next.value = m
  midway : 2 * m.value = d.value + d.next.value
  fewest : ∀ (c : ℕ) (e : ℤ), .nearestTo (c * 10 ^ e) = m →
    (Nat.toDigits 10 d.coefficient).length ≤ (Nat.toDigits 10 c).length

/-! ## One grid -/

section

variable {low above step : ℕ} {readsBack : ℕ → Bool}

/-- How a tie is broken matters only in a tie. -/
theorem choose_even_eq_up_or :
    choose .even low above step readsBack = choose .up low above step readsBack ∨
      low % 2 = 0 ∧ 2 * above = step ∧ readsBack low ∧ readsBack (low + 1) := by
  unfold choose
  cases readsBack low <;> cases readsBack (low + 1)
  · exact .inl rfl
  · exact .inl rfl
  · exact .inl rfl
  · by_cases tie : 2 * above = step ∧ low % 2 = 0
    · exact .inr ⟨tie.2, tie.1, rfl, rfl⟩
    · left
      simp [tie]

theorem choose_of_tie (even : low % 2 = 0) (midway : 2 * above = step) (back : readsBack low)
    (back' : readsBack (low + 1)) :
    choose .even low above step readsBack = some low ∧
      choose .up low above step readsBack = some (low + 1) := by
  simp [choose, even, midway, back, back']

end

/-! ## The search -/

section

variable {f g : ℕ → Option ℕ} {finest start k : ℕ}

/-- The search goes past grids on which nothing is found. -/
theorem search_of_coarser (reach : k ≤ start) (coarser : ∀ j, k < j → j ≤ start → f j = none) :
    search f finest start = search f finest k := by
  induction start with
  | zero => rw [Nat.le_zero.mp reach]
  | succ start ih =>
    rcases Nat.eq_or_lt_of_le reach with rfl | less
    · rfl
    · rw [search, coarser (start + 1) less (Nat.le_refl _)]
      exact ih (Nat.le_of_lt_succ less) fun j above below => coarser j above (by omega)

/-- Two searches end alike, or there is a first grid on which they do not find the same. -/
theorem search_eq_or (start : ℕ) :
    search f finest start = search g finest start ∨
      ∃ k, k + 1 ≤ start ∧ (∀ j, k + 1 < j → j ≤ start → f j = none) ∧ f (k + 1) ≠ g (k + 1) := by
  induction start with
  | zero => exact .inl rfl
  | succ start ih =>
    by_cases same : f (start + 1) = g (start + 1)
    · rw [search, search, ← same]
      cases here : f (start + 1) with
      | some c => exact .inl rfl
      | none =>
        rcases ih with alike | ⟨k, reach, coarser, differ⟩
        · exact .inl alike
        refine .inr ⟨k, Nat.le_succ_of_le reach, fun j above below => ?_, differ⟩
        rcases Nat.eq_or_lt_of_le below with rfl | less
        · exact here
        · exact coarser j above (Nat.le_of_lt_succ less)
    · exact .inr ⟨start, Nat.le_refl _, fun j above below => by omega, same⟩

end

/-! ## Places -/

/-- Numbers with more places have no fewer digits. -/
theorem length_toDigits_le_length {a c n : ℕ} (few : a < 10 ^ (n + 1)) (many : 10 ^ n ≤ c) :
    (Nat.toDigits 10 a).length ≤ (Nat.toDigits 10 c).length := by
  refine ((Nat.length_toDigits_le_iff (by decide) (Nat.succ_pos n)).mpr few).trans ?_
  refine Nat.lt_of_not_le fun short => ?_
  rcases Nat.eq_zero_or_pos n with rfl | some
  · exact absurd (List.eq_nil_of_length_eq_zero (Nat.le_zero.mp short)) Nat.toDigits_ne_nil
  · exact absurd many (Nat.not_le.mpr ((Nat.length_toDigits_le_iff (by decide) some).mp short))

/-- The digits of a number are those of its tens, if there are any, and a last one. -/
theorem toDigits_eq_append (n : ℕ) :
    Nat.toDigits 10 n =
      (if n < 10 then [] else Nat.toDigits 10 (n / 10)) ++ [(n % 10).digitChar] := by
  rw [Nat.toDigits_eq_if (by decide)]
  split
  · rw [List.nil_append, Nat.mod_eq_of_lt ‹_›]
  · rfl

/-- All digits are significant if the last one is no zero. -/
theorem significant_of_mod_ne_zero {d : Decimal} (nonzero : d.coefficient % 10 ≠ 0) :
    d.significant = Nat.toDigits 10 d.coefficient := by
  have digit : ∀ i < 10, i ≠ 0 → Nat.digitChar i ≠ '0' := by decide
  have last := digit _ (Nat.mod_lt d.coefficient (by decide)) nonzero
  rw [significant, toDigits_eq_append, List.reverse_append, List.reverse_singleton,
    List.singleton_append, List.dropWhile_cons_of_neg (by simpa using last), List.reverse_cons,
    List.reverse_reverse]

/-- What lies midway, counted in units. -/
theorem midway_iff {m : Magnitude} (c k : ℕ) :
    2 * m.value = value ⟨c, k - 1074⟩ + value (next ⟨c, k - 1074⟩) ↔
      2 * exact m = (2 * c + 1) * 10 ^ k := by
  have unit : (10 : ℚ) ^ (-1074 : ℤ) ≠ 0 := zpow_ne_zero _ (by norm_num)
  rw [m.value_eq_exact, next, value_onGrid, value_onGrid, ← add_mul, ← mul_assoc,
    mul_left_inj' unit]
  generalize exact m = x
  have sum : c * 10 ^ k + (c + 1) * 10 ^ k = (2 * c + 1) * 10 ^ k := by ring
  rw [← sum]
  exact_mod_cast Iff.rfl

/-- Half a step above a point of the grid. -/
theorem two_mul_of_half {x p : ℕ} (half : 2 * (x % p) = p) : 2 * x = (2 * (x / p) + 1) * p := by
  calc 2 * x = 2 * (p * (x / p)) + 2 * (x % p) := by rw [← Nat.mul_add, Nat.div_add_mod]
    _ = 2 * (p * (x / p)) + p := by rw [half]
    _ = (2 * (x / p) + 1) * p := by ring

theorem half_lt (k : ℕ) : 5 * 10 ^ k < 10 ^ (k + 1) := by
  have pos : 0 < 10 ^ k := Nat.pow_pos (by decide)
  omega

/-! ## The tie and the search -/

variable {m : Magnitude} {d : Decimal}

theorem nearestTo_onGrid_iff (c k : ℕ) :
    .nearestTo (value ⟨c, k - 1074⟩) = m ↔ Magnitude.nearest (c * Nat.pow 10 k) one = m := by
  rw [nearestTo_onGrid c (show (k - 1074 : ℤ) + 1074 = k by omega)]

/-- Where two ways to break ties find different things, there is a tie. -/
theorem isTie_of_onGrid? (finite : m < .infinity) (nonzero : m ≠ 0) {start k : ℕ}
    (first : 10 ^ start ≤ exact m) (last : exact m < 10 ^ (start + 1)) (reach : k ≤ start)
    (coarser : ∀ j, k < j → j ≤ start → onGrid? .even m j = none)
    (differ : onGrid? .even m k ≠ onGrid? .up m k) :
    IsTie ⟨exact m / 10 ^ k, k - 1074⟩ m := by
  unfold onGrid? at differ
  obtain ⟨even, half, back, back'⟩ := choose_even_eq_up_or.resolve_left differ
  refine ⟨even, ?_, ?_, ?_, fun c e reads => ?_⟩
  · exact (nearestTo_onGrid_iff _ _).mpr (of_decide_eq_true back)
  · exact (nearestTo_onGrid_iff _ _).mpr (of_decide_eq_true back')
  · rw [midway_iff]
    exact two_mul_of_half half
  · have many := pow_le_of_coarser finite nonzero first reach coarser reads
    have places : 10 ^ k * 10 ^ (start - k + 1) = 10 ^ (start + 1) := by
      rw [← Nat.pow_add, ← Nat.add_assoc, Nat.add_sub_cancel' reach]
    exact length_toDigits_le_length (Nat.div_lt_of_lt_mul (last.trans_eq places.symm)) many

/-- Without a tie it does not matter how ties are broken. -/
theorem shortest_even_eq_up (finite : m < .infinity) (nonzero : m ≠ 0)
    (noTie : ∀ d : Decimal, ¬ d.IsTie m) : shortest .even m = shortest .up m := by
  obtain ⟨first, last⟩ := pow_le_and_lt_pow (exact_pos nonzero)
  unfold shortest
  generalize (Nat.toDigits 10 (exact m)).length - 1 = start at first last
  refine (search_eq_or start).resolve_right ?_
  rintro ⟨k, reach, coarser, differ⟩
  exact noTie _ (isTie_of_onGrid? finite nonzero first last reach coarser differ)

namespace IsTie

/-- In a tie the magnitude is no zero, and neither is the lower decimal. -/
theorem pos (tie : d.IsTie m) : m ≠ 0 ∧ 0 < d.coefficient := by
  have nonzero : m ≠ 0 := by
    rintro rfl
    have positive : 0 < d.next.value :=
      mul_pos (Nat.cast_pos.mpr (Nat.succ_pos _)) (zpow_pos (by norm_num) _)
    have midway := tie.midway
    rw [Magnitude.value_zero] at midway
    linarith [value_nonneg d]
  refine ⟨nonzero, Nat.pos_of_ne_zero fun zero => nonzero ?_⟩
  have back := tie.back
  rw [value, zero, Nat.cast_zero, zero_mul, Magnitude.nearestTo_zero] at back
  exact back.symm

/-- A magnitude is on the finest grid and not midway between two points of it, or of a finer one. -/
theorem exponent_eq (tie : d.IsTie m) : ∃ k : ℕ, d.exponent = (k + 1 : ℕ) - 1074 := by
  rcases Int.lt_or_le (-1074) d.exponent with coarse | fine
  · exact ⟨(d.exponent + 1073).toNat, by omega⟩
  · obtain ⟨i, place⟩ : ∃ i : ℕ, d.exponent = -1074 - i := ⟨(-1074 - d.exponent).toNat, by omega⟩
    have midway := tie.midway
    rw [m.value_eq_exact, value, value, next, place, zpow_sub₀ (by norm_num),
      zpow_natCast] at midway
    have unit : (10 : ℚ) ^ (-1074 : ℤ) ≠ 0 := zpow_ne_zero _ (by norm_num)
    generalize exact m = x at midway
    generalize (10 : ℚ) ^ (-1074 : ℤ) = u at midway unit
    have whole : ((2 * (x * 10 ^ i) : ℕ) : ℚ) = (2 * d.coefficient + 1 : ℕ) := by
      push_cast at midway ⊢
      field_simp at midway
      linarith
    have parity := Nat.cast_injective whole
    omega

/-- What is counted in units: the magnitude is half a step above the lower decimal. -/
theorem exact_eq {c k : ℕ} (tie : IsTie ⟨c, (k + 1 : ℕ) - 1074⟩ m) :
    exact m = c * 10 ^ (k + 1) + 5 * 10 ^ k := by
  have midway := (midway_iff c (k + 1)).mp tie.midway
  generalize exact m = x at midway
  rw [Nat.pow_succ] at midway ⊢
  generalize 10 ^ k = p at midway
  nlinarith

/-- On its own grid the tie is found, and each style takes its neighbour. -/
theorem onGrid?_eq {c k : ℕ} (tie : IsTie ⟨c, (k + 1 : ℕ) - 1074⟩ m) :
    onGrid? .even m (k + 1) = some c ∧ onGrid? .up m (k + 1) = some (c + 1) := by
  have less := half_lt k
  have low : exact m / Nat.pow 10 (k + 1) = c := by
    rw [tie.exact_eq, Nat.add_comm, Nat.pow_eq, Nat.add_mul_div_right _ _ (Nat.pow_pos (by decide)),
      Nat.div_eq_of_lt less, Nat.zero_add]
  have half : 2 * (exact m % Nat.pow 10 (k + 1)) = Nat.pow 10 (k + 1) := by
    rw [tie.exact_eq, Nat.mul_comm c, Nat.pow_eq, Nat.mul_add_mod, Nat.mod_eq_of_lt less,
      Nat.pow_succ]
    ring
  have back := decide_eq_true ((nearestTo_onGrid_iff c (k + 1)).mp tie.back)
  have back' := decide_eq_true ((nearestTo_onGrid_iff (c + 1) (k + 1)).mp tie.next_back)
  simp only [onGrid?, low]
  exact choose_of_tie tie.even half back back'

/-- The tie has a digit for each place from the first of the magnitude down to its grid. -/
theorem lt_length {c k start : ℕ} (tie : IsTie ⟨c, (k + 1 : ℕ) - 1074⟩ m)
    (first : 10 ^ start ≤ exact m) : start - (k + 1) < (Nat.toDigits 10 c).length := by
  rcases Nat.eq_zero_or_pos (start - (k + 1)) with none | some
  · rw [none]
    exact List.length_pos_of_ne_nil Nat.toDigits_ne_nil
  refine Nat.lt_of_not_le fun short => absurd first (Nat.not_le.mpr ?_)
  have few := (Nat.length_toDigits_le_iff (by decide) some).mp short
  calc exact m = c * 10 ^ (k + 1) + 5 * 10 ^ k := tie.exact_eq
    _ < (c + 1) * 10 ^ (k + 1) := by
      rw [Nat.add_mul, Nat.one_mul]
      exact Nat.add_lt_add_left (half_lt k) _
    _ ≤ 10 ^ (start - (k + 1)) * 10 ^ (k + 1) := Nat.mul_le_mul_right _ few
    _ = 10 ^ start := by
      rw [← Nat.pow_add, Nat.sub_add_cancel (Nat.le_of_lt (Nat.lt_of_sub_pos some))]

/-- On a coarser grid nothing is found, because it would be shorter. -/
theorem onGrid?_eq_none {c k start j : ℕ} (tie : IsTie ⟨c, (k + 1 : ℕ) - 1074⟩ m)
    (first : 10 ^ start ≤ exact m) (last : exact m < 10 ^ (start + 1)) (coarser : k + 1 < j)
    (reach : j ≤ start) (way : Tie) : onGrid? way m j = none := by
  refine Option.eq_none_iff_forall_ne_some.mpr fun c' found => ?_
  have many := tie.lt_length first
  have back : .nearestTo (value ⟨c', j - 1074⟩) = m :=
    (nearestTo_onGrid_iff c' j).mpr (nearest_of_onGrid? found)
  have places : 10 ^ j * 10 ^ (start + 1 - j) = 10 ^ (start + 1) := by
    rw [← Nat.pow_add, Nat.add_sub_cancel' (Nat.le_succ_of_le reach)]
  have le : c' ≤ 10 ^ (start + 1 - j) :=
    (le_of_onGrid? found).trans (Nat.div_lt_of_lt_mul (last.trans_eq places.symm))
  clear first last found
  rcases Nat.eq_or_lt_of_le le with rfl | less
  -- A power of ten is written with one digit.
  · have power : value ⟨10 ^ (start + 1 - j), j - 1074⟩ =
        (1 : ℕ) * 10 ^ ((start + 1 - j : ℕ) + (j - 1074 : ℤ)) := by
      rw [value, zpow_add₀ (by norm_num), zpow_natCast, Nat.cast_one, one_mul, Nat.cast_pow,
        Nat.cast_ofNat]
    have one : (Nat.toDigits 10 c).length ≤ 1 := tie.fewest 1 _ (power ▸ back)
    omega
  · have fewer : (Nat.toDigits 10 c).length ≤ (Nat.toDigits 10 c').length :=
      tie.fewest c' (j - 1074) back
    have few := (Nat.length_toDigits_le_iff (by decide) (by omega)).mpr less
    omega

/-- **In a tie one style takes the lower decimal and the other the next.** -/
theorem shortest_eq (tie : d.IsTie m) : shortest .even m = d ∧ shortest .up m = d.next := by
  obtain ⟨c, e⟩ := d
  obtain ⟨k, rfl⟩ : ∃ k : ℕ, e = (k + 1 : ℕ) - 1074 := tie.exponent_eq
  obtain ⟨first, last⟩ := pow_le_and_lt_pow (exact_pos tie.pos.1)
  unfold shortest
  generalize (Nat.toDigits 10 (exact m)).length - 1 = start at first last
  have reach : k + 1 ≤ start := by
    have below : 10 ^ (k + 1) < 10 ^ (start + 1) := calc
      10 ^ (k + 1) ≤ c * 10 ^ (k + 1) := Nat.le_mul_of_pos_left _ tie.pos.2
      _ ≤ exact m := by rw [tie.exact_eq]; exact Nat.le_add_right _ _
      _ < 10 ^ (start + 1) := last
    exact Nat.le_of_lt_succ ((Nat.pow_lt_pow_iff_right (by decide)).mp below)
  obtain ⟨even, up⟩ := tie.onGrid?_eq
  rw [search_of_coarser reach fun j above below => tie.onGrid?_eq_none first last above below _,
    search_of_coarser reach fun j above below => tie.onGrid?_eq_none first last above below _,
    search, search, even, up]
  exact ⟨rfl, rfl⟩

/-- The lower decimal does not end with a zero, or one digit less would do. -/
theorem mod_ten_ne_zero (tie : d.IsTie m) : d.coefficient % 10 ≠ 0 := by
  intro zero
  obtain ⟨b, tens⟩ : ∃ b, d.coefficient = b * 10 :=
    ⟨_, (Nat.div_mul_cancel (Nat.dvd_of_mod_eq_zero zero)).symm⟩
  have many : ¬ b * 10 < 10 := by
    have positive := tie.pos.2
    omega
  have value : d.value = b * 10 ^ (d.exponent + 1) := by
    rw [value, tens, zpow_add₀ (by norm_num), zpow_one]
    push_cast
    ring
  have fewer := tie.fewest b (d.exponent + 1) (value ▸ tie.back)
  rw [tens, toDigits_eq_append, if_neg many, Nat.mul_div_cancel _ (by decide), List.length_append,
    List.length_singleton] at fewer
  omega

/-- The two decimals differ in the last digit only. -/
theorem dropLast_significant (tie : d.IsTie m) :
    d.significant.dropLast = d.next.significant.dropLast := by
  have even := tie.even
  have last := tie.mod_ten_ne_zero
  have last' : d.next.coefficient % 10 ≠ 0 := by
    simp only [next]
    omega
  have tens : d.next.coefficient / 10 = d.coefficient / 10 := by
    simp only [next]
    omega
  have few : d.next.coefficient < 10 ↔ d.coefficient < 10 := by
    simp only [next]
    omega
  rw [significant_of_mod_ne_zero last, significant_of_mod_ne_zero last', toDigits_eq_append,
    toDigits_eq_append d.next.coefficient, List.dropLast_concat, List.dropLast_concat, tens]
  simp only [few]

end IsTie

end Decimal

end ShortForm
