import ShortForm.Proofs.Json.RoundTrip
import ShortForm.Proofs.Json.WrittenDecimal

/-!
# Values are written apart

No two values are written alike (`Json.write_injective`), whatever the reader makes of their texts:
however deep their brackets are, and although a double is not always read as the one that was
written. All that is asked for is that every double is finite.

A number is told by the numeral that it is written as (`Number.numeral_injective`). From there it is
the grammar of the texts: a text is a text of one value only, if that is so for numbers.
-/

namespace ShortForm

namespace Number

variable {n m : Number}

/-- The number is whole, or a finite double. -/
def IsFinite : Number → Prop
  | int _ => True
  | float x => x.isFinite

/-- The numeral that a number is written as. -/
def numeral : Number → Numeral
  | int n => .ofInt n
  | float x => x.numeral floatStyle

/-- The text of a number is a numeral. -/
theorem spelledBy_write (finite : n.IsFinite) : n.numeral.SpelledBy n.write := by
  cases n with
  | int n => exact Numeral.spelledBy_ofInt n
  | float x => exact Binary64.spelledBy_decimal floatStyle finite

/-- A double is never written as a whole number is. -/
theorem numeral_int_ne_float (n : Int) (x : Binary64) : (int n).numeral ≠ (float x).numeral := by
  intro same
  have marked := Binary64.marked_numeral floatStyle x
  rw [show x.numeral floatStyle = (int n).numeral from same.symm] at marked
  exact marked.elim (· rfl) (· rfl)

/-- **A number is told by its numeral.** -/
theorem numeral_injective (finite : n.IsFinite) (finite' : m.IsFinite)
    (same : n.numeral = m.numeral) : n = m := by
  cases n with
  | int n =>
    cases m with
    | int m => exact congrArg int (Numeral.ofInt_injective same)
    | float x => exact absurd same (numeral_int_ne_float n x)
  | float x =>
    cases m with
    | int m => exact absurd same.symm (numeral_int_ne_float m x)
    | float y => exact congrArg float (Binary64.numeral_injective finite finite' same)

end Number

namespace Json

variable {j k : Json}

/-- The text of a number is the text of no other, wherever it ends. -/
theorem oneText_number (n : Number) : OneText (Written Number.IsFinite) n := by
  rintro _ m _ rest rest' ⟨rfl, finite⟩ ⟨rfl, finite'⟩ ends ends' same
  have reads := (Number.spelledBy_write finite).read ends .badNumber
  rw [same, (Number.spelledBy_write finite').read ends' .badNumber] at reads
  have numerals : m.numeral = n.numeral := congrArg Prod.fst (Except.ok.inj reads)
  have rests : rest' = rest := congrArg Prod.snd (Except.ok.inj reads)
  exact ⟨(Number.numeral_injective finite' finite numerals).symm, rests.symm⟩

/-- **No two values are written alike**, if their doubles are finite. -/
theorem write_injective (finite : j.EachNumber Number.IsFinite)
    (finite' : k.EachNumber Number.IsFinite) (same : j.write = k.write) : j = k :=
  have numerals := areNumerals_written fun here => (Number.spelledBy_write here).start
  (TextOf.unique numerals oneText_number j finite.textOf finite'.textOf Numeral.ends_nil
    Numeral.ends_nil (congrArg (· ++ []) same)).1

end Json
end ShortForm
