import ShortForm.Json.Numeral
import ShortForm.Json.Write

/-!
# Written numbers

The characters that numbers are written in, and what ends a number that stands in a text
(`Numeral.Ends`). The digits of a whole number are taken back as that number
(`Numeral.take_toDigits`), and a double is never written with digits alone
(`Binary64.mark_mem_decimal`).
-/

namespace ShortForm

/-! ## The characters of a numeral -/

namespace Numeral

/-- A character that can stand in a numeral. -/
def isPart (c : Char) : Bool := c.isDigit || c ∈ ['-', '+', '.', 'e', 'E']

/-- The text cannot go on a numeral that stands in front of it. -/
def Ends (rest : List Char) : Prop := ∀ c ∈ rest.head?, isPart c = false

theorem ends_nil : Ends [] := by
  intro c mem
  simp at mem

theorem ends_cons {c : Char} {rest : List Char} (h : isPart c = false) : Ends (c :: rest) := by
  intro d mem
  simp only [List.head?_cons, Option.mem_def, Option.some.injEq] at mem
  exact mem ▸ h

/-- Behind an ended numeral stands no digit. -/
theorem Ends.not_isDigit {rest : List Char} (ends : Ends rest) :
    ∀ c ∈ rest.head?, ¬ c.isDigit := by
  intro c mem digit
  have := ends c mem
  simp only [isPart, digit, Bool.true_or, Bool.true_eq_false] at this

/-- Behind an ended numeral stands none of the marks of a numeral. -/
theorem Ends.head?_ne {rest : List Char} (ends : Ends rest) {c : Char} (part : isPart c) :
    rest.head? ≠ some c := by
  intro head
  have := ends c head
  simp only [part, Bool.true_eq_false] at this

theorem isPart_of_isDigit {c : Char} (digit : c.isDigit) : isPart c := by
  simp only [isPart, digit, Bool.true_or]

end Numeral

open Numeral in
/-- A decimal is laid out in characters of a numeral. -/
theorem Decimal.isPart_of_mem_layOut {style : Decimal.Style} {d : Decimal} {c : Char}
    (mem : c ∈ d.layOut style) : isPart c := by
  have digits : ∀ {n : Nat}, ∀ c ∈ Nat.toDigits 10 n, isPart c := fun c mem =>
    isPart_of_isDigit (Nat.isDigit_of_mem_toDigits (by decide) (by decide) mem)
  have significant : ∀ c ∈ d.significant, isPart c := by
    intro c mem
    have := (List.dropWhile_sublist _).subset (List.mem_reverse.mp mem)
    exact digits c (List.mem_reverse.mp this)
  unfold Decimal.layOut Decimal.positional Decimal.scientific at mem
  split at mem
  · split at mem
    · simp only [List.mem_cons, List.mem_append, List.mem_replicate] at mem
      rcases mem with rfl | rfl | ⟨-, rfl⟩ | mem
      · decide
      · decide
      · decide
      · exact significant c mem
    · simp only [List.mem_append, List.mem_cons, List.mem_replicate] at mem
      rcases mem with (mem | ⟨-, rfl⟩) | rfl | mem
      · exact significant c (List.mem_of_mem_take mem)
      · decide
      · decide
      · split at mem
        · simp only [List.mem_singleton] at mem
          subst mem
          decide
        · exact significant c (List.mem_of_mem_drop mem)
  · simp only [List.mem_append, List.mem_cons] at mem
    rcases mem with (mem | mem) | rfl | rfl | mem
    · exact significant c (List.mem_of_mem_take mem)
    · split at mem
      · simp at mem
      · rcases List.mem_cons.mp mem with rfl | mem
        · decide
        · exact significant c (List.mem_of_mem_drop mem)
    · decide
    · split <;> decide
    · exact digits c mem

open Numeral in
/-- The text of a double is written in characters of a numeral. -/
theorem Binary64.isPart_of_mem_decimal {style : Decimal.Style} {x : Binary64} {c : Char}
    (mem : c ∈ x.decimal style) : isPart c := by
  simp only [Binary64.decimal, List.mem_append] at mem
  rcases mem with mem | mem
  · split at mem
    · simp only [List.mem_singleton] at mem
      subst mem
      decide
    · simp at mem
  · split at mem
    · simp only [List.mem_cons, List.not_mem_nil, or_false] at mem
      rcases mem with rfl | rfl | rfl <;> decide
    · exact Decimal.isPart_of_mem_layOut mem

open Numeral in
/-- A number is written in characters of a numeral. -/
theorem Number.isPart_of_mem_write {n : Number} {c : Char} (mem : c ∈ n.write) : isPart c := by
  cases n with
  | int n =>
    simp only [Number.write, List.mem_append] at mem
    rcases mem with mem | mem
    · split at mem
      · simp only [List.mem_singleton] at mem
        subst mem
        decide
      · simp at mem
    · exact isPart_of_isDigit (Nat.isDigit_of_mem_toDigits (by decide) (by decide) mem)
  | float x => exact Binary64.isPart_of_mem_decimal mem

/-! ## Digits -/

namespace Numeral

/-- Digits whose number is within the limit are all taken. -/
theorem take_of_le {limit : Nat} {ds : List Char} {n : Nat}
    (h : Nat.ofDigitChars 10 ds n ≤ limit) :
    take limit n ds = (Nat.ofDigitChars 10 ds n, []) := by
  induction ds generalizing n with
  | nil => rfl
  | cons c ds ih =>
    rw [Nat.ofDigitChars_cons, Nat.mul_comm] at h
    have le : n * 10 + (c.toNat - '0'.toNat) ≤ limit := by
      have grow := @Nat.ofDigitChars_eq_ofDigitChars_zero ds (n * 10 + (c.toNat - '0'.toNat))
      have := Nat.le_mul_of_pos_left (n * 10 + (c.toNat - '0'.toNat))
        (Nat.pow_pos (n := ds.length) (show 0 < 10 by decide))
      omega
    rw [take, if_pos le, ih h, Nat.ofDigitChars_cons, Nat.mul_comm 10 n]

/-- The digits of a positive number do not begin with a zero. -/
theorem head?_toDigits_ne {n : Nat} (pos : 0 < n) : (Nat.toDigits 10 n).head? ≠ some '0' := by
  induction n using Nat.strongRecOn with
  | ind n ih =>
    rw [Nat.toDigits_eq_if (by decide)]
    split
    · rename_i small
      intro zero
      have : n = 0 := by simpa using zero
      omega
    · have := ih (n / 10) (by omega) (by omega)
      obtain ⟨c, ds, eq⟩ := List.exists_cons_of_ne_nil (@Nat.toDigits_ne_nil (n / 10) 10)
      rw [eq] at this ⊢
      exact this

/-- The digits of a number that fits are taken, all of them. -/
theorem take_toDigits {limit n : Nat} (fits : n ≤ limit) :
    take limit 0 (Nat.toDigits 10 n) = (n, []) := by
  have value : Nat.ofDigitChars 10 (Nat.toDigits 10 n) 0 = n := Nat.ofDigitChars_ten_toDigits
  rw [take_of_le (by rw [value]; exact fits), value]

end Numeral

/-! ## Doubles are not whole numbers -/

/-- A decimal is laid out with a point or an exponent. -/
theorem Decimal.mark_mem_layOut (style : Decimal.Style) (d : Decimal) :
    '.' ∈ d.layOut style ∨ 'e' ∈ d.layOut style := by
  unfold layOut
  split
  · left
    unfold positional
    split <;> simp
  · right
    simp [scientific]

/-- The text of a double holds a point or an exponent. -/
theorem Binary64.mark_mem_decimal (style : Decimal.Style) (x : Binary64) :
    '.' ∈ x.decimal style ∨ 'e' ∈ x.decimal style := by
  unfold Binary64.decimal
  simp only [List.mem_append]
  by_cases zero : x.magnitude = 0
  · exact .inl (.inr (by rw [if_pos zero]; decide))
  · rw [if_neg zero]
    exact (Decimal.mark_mem_layOut style _).imp .inr .inr

end ShortForm
