import ShortForm.Proofs.Json.Exact
import ShortForm.Proofs.Tree.RoundTrip

/-!
# Doubles that survive

Which doubles are read back from their own text. The reader of numbers rounds more than once, so not
all of them are. But where the digits of the text, all of them, make a whole number that a double
can hold and the exponent of the last digit is no further from zero than 22, only the last step of
the reader rounds, and the double is read back bit for bit (`Value.ofText_float`). That the digits
have to fit is no accident of the proof: the greatest odd number below `2^53` is written with a zero
behind the point, which is one digit too many.
-/

namespace ShortForm

/-- The text of a finite double is the text of its numeral. -/
theorem Binary64.run_numeral {x : Binary64} (finite : x.isFinite) :
    (Numeral.read (.unfinished .value)).run (Value.float x).text.toList =
      .ok (x.numeral Number.floatStyle, []) := by
  have text : (Value.float x).text.toList = x.decimal Number.floatStyle := by
    rw [Value.toList_text_float finite, Number.write]
  have reads := (spelledBy_decimal Number.floatStyle finite).read Numeral.ends_nil
    (.unfinished .value)
  rwa [List.append_nil, ← text] at reads

/-- **Which doubles survive.** The text of a finite double is read as a numeral. If its digits,
also a zero behind the point, make no more than `2^53`, and the exponent of the last one is no
further from zero than 22, then the text is read as the double, bit for bit. A double can be too
much for this though it is a whole number below `2^53`: the zero behind the point counts. -/
theorem Value.ofText_float :
    (∀ x : Binary64, x.isFinite → ∃ n : Numeral,
      (Numeral.read (.unfinished .value)).run (Value.float x).text.toList = .ok (n, []) ∧
      (n.significand ≤ 2 ^ 53 → n.lastExponent.natAbs ≤ 22 →
        Value.ofText (Value.float x).text = .ok (.float x))) ∧
    ∃ x y : Binary64, x.isNegative = false ∧
      x.magnitude.units = 9007199254740991 * Nat.pow 2 1074 ∧
      (Value.float x).text = "9007199254740991.0" ∧
      Value.ofText "9007199254740991.0" = .ok (.float y) ∧ y ≠ x := by
  constructor
  · intro x finite
    refine ⟨x.numeral Number.floatStyle, Binary64.run_numeral finite, fun digits reach => ?_⟩
    exact Binary64.readsBack_of_read finite (Binary64.read_write finite digits reach)
  · have whole : (Binary64.ofInt 9007199254740991).magnitude.units =
        9007199254740991 * Nat.pow 2 1074 := by
      have exactly := Magnitude.units_ofNat_word (show 9007199254740991 ≤ 2 ^ 53 by decide)
      rwa [Binary64.ofInt, Binary64.magnitude_ofParts _ (by decide +kernel)]
    have reads : Number.read.run "9007199254740991.0".toList =
        .ok (.float (.ofInt 9007199254740990), []) := by decide +kernel
    exact ⟨.ofInt 9007199254740991, .ofInt 9007199254740990, by decide +kernel, whole,
      by decide +kernel, Value.ofText_number reads, by decide +kernel⟩

/-- A negative double in scientific form. -/
theorem Value.ofText_float_scientific :
    (Value.float ⟨0xc48969368974c05b⟩).text = "-1.5e+22" ∧
      Value.ofText "-1.5e+22" = .ok (.float ⟨0xc48969368974c05b⟩) := by
  have text : (Value.float ⟨0xc48969368974c05b⟩).text = "-1.5e+22" := by decide +kernel
  obtain ⟨n, reads, survives⟩ := Value.ofText_float.1 ⟨0xc48969368974c05b⟩ (by decide)
  rw [text] at reads survives
  have numeral : (Numeral.read (.unfinished .value)).run "-1.5e+22".toList =
      .ok (⟨true, ['1'], some ['5'], some (false, ['2', '2'])⟩, []) := by decide +kernel
  rw [numeral] at reads
  cases reads
  exact ⟨text, survives (by decide) (by decide)⟩

end ShortForm
