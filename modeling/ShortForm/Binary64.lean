/-!
# Doubles, exactly

A double is kept as its 64 bits. Every finite magnitude is a whole number of units of `2^-1074`,
so all arithmetic here is arithmetic of natural numbers: an operation states its exact result as a
quotient and takes the magnitude nearest to it.

A magnitude is written as the word of a double without the sign bit. These words are in the order
of the magnitudes that they stand for, the one for infinity last, and neighbouring words are
neighbouring magnitudes.
-/

namespace ShortForm

/-- The quotient `num / den` rounded to a whole number, a half going to the even neighbour. -/
def roundQuotient (num den : Nat) : Nat :=
  let q := num / den
  let r := num % den
  if 2 * r < den ∨ (2 * r = den ∧ q % 2 = 0) then q else q + 1

/-- The word of a magnitude: a double without its sign bit. -/
abbrev Magnitude := Nat

namespace Magnitude

/-- The word of infinity, above every finite word. -/
def infinity : Magnitude := 0x7ff0000000000000

/-- A finite magnitude in units of `2^-1074`. Words below `2^52` stand for themselves; above, each
`2^52` words the step from one to the next doubles. -/
def units (m : Magnitude) : Nat :=
  let binade := Nat.pow 2 52
  if m < binade then m else (binade + m % binade) * Nat.pow 2 (m / binade - 1)

/-- The magnitude nearest to `num / den`; of two at the same distance the one with the even word.
What lies half a step or more above the largest finite magnitude is infinite.

The step between magnitudes near a quotient of `n` binary digits, in units, is `2^(n - 53)`, and
never below one unit. -/
def nearest (num den : Nat) : Magnitude :=
  let scaled := num * Nat.pow 2 1074
  let step := (scaled / den).log2 - 52
  min (step * Nat.pow 2 52 + roundQuotient scaled (den * Nat.pow 2 step)) infinity

/-- The magnitude nearest to a whole number. -/
def ofNat (n : Nat) : Magnitude := nearest n 1

/-- The rounded product of two finite magnitudes. -/
def mul (a b : Magnitude) : Magnitude := nearest (a.units * b.units) (Nat.pow 2 2148)

/-- The rounded quotient of two finite magnitudes, the second not zero. -/
def div (a b : Magnitude) : Magnitude := nearest a.units b.units

end Magnitude

/-- A double, by its bits. -/
structure Binary64 where
  bits : UInt64
  deriving DecidableEq

namespace Binary64

/-- The sign bit is set. -/
def isNegative (x : Binary64) : Bool := 0x8000000000000000 ≤ x.bits.toNat

/-- The word without the sign bit. -/
def magnitude (x : Binary64) : Magnitude := x.bits.toNat % 0x8000000000000000

/-- The double of a sign and a magnitude. -/
def ofParts (negative : Bool) (m : Magnitude) : Binary64 :=
  ⟨.ofNat (if negative then 0x8000000000000000 + m else m)⟩

/-- Neither infinite nor a NaN. -/
def isFinite (x : Binary64) : Bool := x.magnitude < Magnitude.infinity

/-- One of the two infinities. -/
def isInfinite (x : Binary64) : Bool := x.magnitude == Magnitude.infinity

/-- Not a number. -/
def isNaN (x : Binary64) : Bool := Magnitude.infinity < x.magnitude

/-- Equality of the numbers that two doubles stand for: a NaN stands for none, and both zeros
stand for the same one. -/
def sameNumber (x y : Binary64) : Bool :=
  !x.isNaN && !y.isNaN && (x == y || (x.magnitude == 0 && y.magnitude == 0))

/-- The double nearest to a whole number. -/
def ofInt (n : Int) : Binary64 :=
  ofParts (n < 0) (.ofNat n.natAbs)

end Binary64

end ShortForm
