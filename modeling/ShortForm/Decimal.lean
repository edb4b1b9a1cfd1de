import ShortForm.Binary64

/-!
# Decimal texts of doubles

A finite double is shown by the fewest significant digits that read back as the same double; of
several decimals with that many digits by the nearest. Two decimals can be equally near, on either
side, and then a style says which is taken. A style also says at which exponents the digits are
written positionally and at which in scientific form.

Every finite magnitude is a whole number of `10^-1074`, because `2^-1074 = 5^1074 * 10^-1074`. So
the digits are searched for among natural numbers, on coarser and coarser grids of powers of ten.
-/

namespace ShortForm

/-- A positive decimal: the coefficient times a power of ten. -/
structure Decimal where
  coefficient : Nat
  exponent : Int
  deriving DecidableEq

namespace Decimal

/-- Which of two equally near decimals is taken. -/
inductive Tie where
  /-- The greater one. -/
  | up
  /-- The one with the even last digit. -/
  | even
  deriving DecidableEq

/-- How decimals are laid out. -/
structure Style where
  tie : Tie
  /-- The exponents of the first digit at which no exponent is written. -/
  isPositional : Int → Bool

/-- The number one as a multiple of `10^-1074`. -/
def one : Nat := Nat.pow 10 1074

/-- A finite magnitude as a multiple of `10^-1074`. -/
def exact (m : Magnitude) : Nat := m.units * Nat.pow 5 1074

/-- The better of the two neighbours on a grid, the lower one `low` steps from zero: of those that
read back, the nearer. What is searched for lies `above` the lower one. -/
def choose (tie : Tie) (low above step : Nat) (readsBack : Nat → Bool) : Option Nat :=
  match readsBack low, readsBack (low + 1) with
  | true, true =>
    if 2 * above < step then some low
    else if 2 * above = step ∧ tie = .even ∧ low % 2 = 0 then some low
    else some (low + 1)
  | true, false => some low
  | false, true => some (low + 1)
  | false, false => none

/-- The multiple of `10^(k - 1074)` nearest to `m` that still reads back as `m`, if there is one,
divided by that step. Only the two neighbours of `m` on the grid need to be tried: what reads back
as `m` surrounds it without a gap. -/
def onGrid? (tie : Tie) (m : Magnitude) (k : Nat) : Option Nat :=
  let step := Nat.pow 10 k
  choose tie (exact m / step) (exact m % step) step fun c => .nearest (c * step) one = m

/-- Searches from the grid `10^(k - 1074)` to finer ones for the first on which something is found.
On the finest there always is: the multiple `finest`. -/
def search (found? : Nat → Option Nat) (finest : Nat) : Nat → Decimal
  | 0 => ⟨finest, -1074⟩
  | k + 1 =>
    match found? (k + 1) with
    | some c => ⟨c, k + 1 - 1074⟩
    | none => search found? finest k

/-- The shortest decimal that reads back as a finite magnitude other than zero. The search begins
at the grid on which the magnitude has one digit, and ends at the latest on the one that holds the
magnitude itself. -/
def shortest (tie : Tie) (m : Magnitude) : Decimal :=
  search (onGrid? tie m) (exact m) ((Nat.toDigits 10 (exact m)).length - 1)

/-- The digits of the coefficient up to the last that is not zero. -/
def significant (d : Decimal) : List Char :=
  ((Nat.toDigits 10 d.coefficient).reverse.dropWhile (· = '0')).reverse

/-- The place of the decimal point, counted from before the first digit. -/
def point (d : Decimal) : Int :=
  (Nat.toDigits 10 d.coefficient).length + d.exponent

/-- Positional form, with at least one digit on either side of the point. -/
def positional (d : Decimal) : List Char :=
  if d.point ≤ 0 then
    '0' :: '.' :: (List.replicate (-d.point).toNat '0' ++ d.significant)
  else
    let whole := d.point.toNat
    let fraction := d.significant.drop whole
    d.significant.take whole ++ List.replicate (whole - d.significant.length) '0' ++
      '.' :: (if fraction = [] then ['0'] else fraction)

/-- Scientific form: one digit before the point, no point where no digit follows it, and the sign
of the exponent always written. -/
def scientific (d : Decimal) : List Char :=
  let exponent := d.point - 1
  let fraction := d.significant.drop 1
  d.significant.take 1 ++ (if fraction = [] then [] else '.' :: fraction) ++
    'e' :: (if exponent < 0 then '-' else '+') :: Nat.toDigits 10 exponent.natAbs

/-- The text of a decimal in a style. -/
def layOut (style : Style) (d : Decimal) : List Char :=
  if style.isPositional (d.point - 1) then d.positional else d.scientific

end Decimal

/-- The decimal text of a finite double. A zero keeps its sign. -/
def Binary64.decimal (style : Decimal.Style) (x : Binary64) : List Char :=
  (if x.isNegative then ['-'] else []) ++
    if x.magnitude = 0 then ['0', '.', '0']
    else (Decimal.shortest style.tie x.magnitude).layOut style

end ShortForm
