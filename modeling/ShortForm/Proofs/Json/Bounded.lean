import ShortForm.Proofs.Json.Accord
import ShortForm.Proofs.Json.CutNumber

/-!
# What is read is bounded

A numeral may have any number of digits and any exponent, and still the number that it is has
bounds: a word holds it, or it is a finite double (`Numeral.isBounded_of_value`). The significand is
a word and so a finite magnitude; dividing it by a power of ten makes it no greater, and what
becomes infinite when it is multiplied is reported as a fault. So finiteness is kept by each step of
the scaling, however often it goes round (`Numeral.scale_lt_infinity`).

What holds of the numbers that are read holds of every number in a JSON value (`Json.gives_read`).
-/

namespace ShortForm

open Reader

namespace Magnitude

/-- What is divided by more is no greater. -/
theorem nearest_anti (num : Nat) {a b : Nat} (pos : 0 < a) (le : a ≤ b) :
    nearest num b ≤ nearest num a := by
  have pos' : 0 < b := Nat.lt_of_lt_of_le pos le
  calc nearest num b
      = nearest (num * a) (b * a) := (nearest_mul_mul num b pos).symm
    _ ≤ nearest (num * b) (b * a) :=
        nearest_mono (Nat.mul_pos pos' pos) (Nat.mul_le_mul_left num le)
    _ = nearest num a := by rw [Nat.mul_comm b a, nearest_mul_mul num a pos']

/-- A power of ten is no less than one. -/
theorem le_units_power (k : Nat) : Nat.pow 2 1074 ≤ units (ofNat (Nat.pow 10 k)) := by
  have one : ofNat 1 ≤ ofNat (Nat.pow 10 k) := nearest_mono Nat.one_pos (Nat.pow_pos (by decide))
  rw [← units_ofNat_one]
  exact units_strictMono.monotone one

/-- What is divided by a power of ten does not grow. -/
theorem div_power_le {m : Magnitude} (finite : m < infinity) (k : Nat) :
    m.div (ofNat (Nat.pow 10 k)) ≤ m := by
  have less := nearest_anti m.units unit_pos (le_units_power k)
  rwa [nearest_units finite] at less

end Magnitude

/-- A double is as finite as its magnitude. -/
theorem Binary64.isFinite_ofParts (negative : Bool) {m : Magnitude} (finite : m < .infinity) :
    (ofParts negative m).isFinite := by
  have word := magnitude_ofParts negative (Nat.lt_trans finite (by decide))
  simpa [isFinite, word] using finite

namespace Numeral

/-- **Scaling keeps a magnitude finite**, whatever the exponent. -/
theorem scale_lt_infinity {m scaled : Magnitude} {e : Int} (finite : m < .infinity)
    (scales : scale m e = some scaled) : scaled < .infinity := by
  fun_induction scale m e with
  | case1 m e near power down =>
    cases scales
    exact Nat.lt_of_le_of_lt (Magnitude.div_power_le finite _) finite
  | case2 => cases scales
  | case3 m e near power up less =>
    rw [← Option.some.inj scales]
    exact Nat.lt_of_le_of_ne (m.mul_le_infinity _) less
  | case4 =>
    cases scales
    exact finite
  | case5 => cases scales
  | case6 m e far nonzero down ih =>
    refine ih ?_ scales
    -- The exponent is forgotten first, or the power would be evaluated.
    generalize 308 = k
    exact Nat.lt_of_le_of_lt (Magnitude.div_power_le finite k) finite

/-- The exponent that is written is scaled by like any other, or makes zero, or is a fault. -/
theorem magnitude_lt_infinity {s : Nat} {e : Int} {exponent : Option (Bool × List Char)}
    {m : Magnitude} (fits : s ≤ maxWord) (found : magnitude s e exponent = some m) :
    m < .infinity := by
  have finite := Magnitude.ofNat_lt_infinity fits
  unfold magnitude at found
  split at found
  · exact scale_lt_infinity finite found
  · split at found
    · exact scale_lt_infinity finite found
    · split at found
      · cases found
        decide
      · cases found

/-- **The number that a numeral is has bounds**, however long its digits are and whatever its
exponent. -/
theorem isBounded_of_value {numeral : Numeral} {n : Number} (value : numeral.value = .ok n) :
    n.IsBounded := by
  have fits : (take maxWord 0 numeral.whole).1 ≤ maxWord := take_le _ (Nat.zero_le _)
  have word : maxWord < 0x10000000000000000 := by decide
  unfold Numeral.value at value
  simp only at value
  split at value
  · split at value
    · cases value
      exact ⟨by omega, by omega⟩
    split at value
    · cases value
      exact Binary64.isFinite_ofParts true (Magnitude.ofNat_lt_infinity fits)
    · rename_i held
      cases value
      rw [not_or] at held
      exact ⟨by omega, by omega⟩
  · split at value
    · rename_i found
      cases value
      exact Binary64.isFinite_ofParts _ (magnitude_lt_infinity (take_le _ fits) found)
    · cases value

end Numeral

/-- A number that is read has bounds. -/
theorem Number.gives_read : Number.read.Gives IsBounded := by
  refine (Gives.trivial (Numeral.read _)).bind fun numeral _ => ?_
  cases value : numeral.value with
  | ok n => exact Gives.pure (Numeral.isBounded_of_value value)
  | error fault => exact Gives.fail fault

namespace Json

variable {holds : Number → Prop} {value list object : Reader Json}

theorem gives_readScalarOr (number : Number.read.Gives holds)
    (list_gives : list.Gives (EachNumber holds)) (object_gives : object.Gives (EachNumber holds)) :
    (readScalarOr list object).Gives (EachNumber holds) :=
  gives_valueBy (Gives.pure .null) (fun b => Gives.pure (.bool b))
    (number.bind fun _ here => Gives.pure (.number here))
    ((Gives.trivial stringRest).bind fun s _ => Gives.pure (.string s)) list_gives object_gives

theorem gives_arrayRest (each : value.Gives (EachNumber holds)) :
    (arrayRest value).Gives (EachNumber holds) := by
  have items : (listRest (refuseClosing ']') (item value) []).Gives
      fun items => ∀ j ∈ items, EachNumber holds j := by
    refine gives_listRest (fun items before => ?_) fun j none => by cases none
    exact each.bind fun j here => Gives.pure (List.forall_mem_cons.mpr ⟨here, before⟩)
  exact items.bind fun items all =>
    Gives.pure (.array fun j mem => all j (List.mem_reverse.mp mem))

theorem gives_membersRest (each : value.Gives (EachNumber holds)) :
    (membersRest value).Gives (EachNumber holds) := by
  have members : (objectRest (refuseClosing '\x7d') stringRest (member value) []).Gives
      fun members => ∀ m ∈ members, EachNumber holds m.2 := by
    refine gives_objectRest (fun members name before => ?_) fun j none => by cases none
    exact (Gives.trivial colon).bind fun _ _ => each.bind fun j here =>
      Gives.pure (List.forall_mem_cons.mpr ⟨here, before⟩)
  exact members.bind fun members all =>
    Gives.pure (.object fun m mem => all m (List.mem_reverse.mp mem))

/-- **What holds of the numbers that are read holds of every number in a value that is read.** -/
theorem gives_read (number : Number.read.Gives holds) (room : Nat) :
    (Json.read room).Gives (EachNumber holds) := by
  induction room with
  | zero => exact gives_readScalarOr number (Gives.fail _) (Gives.fail _)
  | succ room ih =>
    exact gives_readScalarOr number
      ((Gives.trivial next).bind fun _ _ => gives_arrayRest ih)
      ((Gives.trivial next).bind fun _ _ => gives_membersRest ih)

end Json
end ShortForm
