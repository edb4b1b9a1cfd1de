import ShortForm.Json.Reader

/-!
# Numerals

How a number is written, and which number it then is. The reading follows the grammar alone; what
the digits amount to comes after it.

The number is not always the double nearest to what is written. Digits are taken into a 64-bit word
as long as it holds them; the rest of the whole part only counts, and the rest of the fraction is
dropped. The word becomes a double, which is then multiplied or divided by powers of ten that are
doubles themselves; each of these steps rounds.
-/

namespace ShortForm

/-- A number as it is written. -/
structure Numeral where
  negative : Bool
  whole : List Char
  fraction : Option (List Char)
  /-- The exponent: whether it is negative, and its digits. -/
  exponent : Option (Bool × List Char)
  deriving DecidableEq

namespace Numeral

open Reader

/-- One digit or more. The fault is the one for a text that ends in front of them. -/
def digits (atEnd : Fault) : Reader (List Char) := do
  match ← peek with
  | none => fail atEnd
  | some c => if c.isDigit then takeWhile Char.isDigit else fail .badNumber

/-- The digits in front of the point. A zero stands alone. -/
def wholeDigits (atEnd : Fault) : Reader (List Char) := do
  let ds ← digits atEnd
  if ds.head? = some '0' ∧ ds.length ≠ 1 then fail .badNumber else pure ds

/-- Drops a minus sign, and says whether there was one. -/
def minus : Reader Bool := do
  if (← peek) = some '-' then
    next
    pure true
  else pure false

/-- The fraction behind a point, if there is a point. -/
def fractionDigits (atEnd : Fault) : Reader (Option (List Char)) := do
  if (← peek) = some '.' then
    next
    some <$> digits atEnd
  else pure none

/-- The exponent behind its letter, if there is one. -/
def exponentDigits (atEnd : Fault) : Reader (Option (Bool × List Char)) := do
  let c ← peek
  if c = some 'e' ∨ c = some 'E' then
    next
    let sign ← peek
    if sign = some '-' ∨ sign = some '+' then next
    let ds ← digits atEnd
    pure (some (sign = some '-', ds))
  else pure none

/-- A number as it is written. -/
def read (atEnd : Fault) : Reader Numeral := do
  let negative ← minus
  let whole ← wholeDigits atEnd
  let fraction ← fractionDigits atEnd
  let exponent ← exponentDigits atEnd
  pure { negative, whole, fraction, exponent }

/-- The greatest number that a 64-bit word holds. -/
def maxWord : Nat := 0xffffffffffffffff

/-- The greatest exponent that is taken as it is written. -/
def maxExponent : Nat := 0x7fffffff

/-- Takes digits into a number as long as it stays within the limit, and gives what was taken with
the digits that were not. -/
def take (limit : Nat) (n : Nat) : List Char → Nat × List Char
  | [] => (n, [])
  | c :: rest =>
    let more := n * 10 + (c.toNat - '0'.toNat)
    if more ≤ limit then take limit more rest else (n, c :: rest)

/-- Scales a magnitude by a power of ten. Powers above `10^308` are no doubles: a greater exponent
is too great for every magnitude but zero, and a lower one is reached in steps of `10^308`, until
the magnitude is zero or the rest of the exponent is within reach. There is no magnitude when the
result is infinite. -/
def scale (m : Magnitude) (exponent : Int) : Option Magnitude :=
  if exponent.natAbs ≤ 308 then
    let power := Magnitude.ofNat (Nat.pow 10 exponent.natAbs)
    if exponent < 0 then some (m.div power)
    else if m.mul power = Magnitude.infinity then none
    else some (m.mul power)
  else if m = 0 then some 0
  else if 0 ≤ exponent then none
  else scale (m.div (.ofNat (Nat.pow 10 308))) (exponent + 308)
termination_by exponent.natAbs
decreasing_by omega

/-- The magnitude of a significand and an exponent, and of the exponent that is written with it. An
exponent that is too long to be taken makes zero, or is too great. -/
def magnitude (significand : Nat) (exponent : Int) : Option (Bool × List Char) → Option Magnitude
  | none => scale (.ofNat significand) exponent
  | some (negative, ds) =>
    match take maxExponent 0 ds with
    | (e, []) => scale (.ofNat significand) (if negative then exponent - e else exponent + e)
    | (_, _ :: _) => if negative ∨ significand = 0 then some 0 else none

/-- The number that is written. -/
def value (n : Numeral) : Except Fault Number :=
  let (significand, dropped) := take maxWord 0 n.whole
  match n.fraction, n.exponent, dropped with
  | none, none, [] =>
    if !n.negative then .ok (.int significand)
    else if significand = 0 ∨ 0x8000000000000000 < significand then
      .ok (.float (.ofParts true (.ofNat significand)))
    else .ok (.int (-significand))
  | _, _, _ =>
    let (significand', unused) := take maxWord significand (n.fraction.getD [])
    let taken := (n.fraction.getD []).length - unused.length
    match magnitude significand' (dropped.length - taken) n.exponent with
    | some m => .ok (.float (.ofParts n.negative m))
    | none => .error .numberTooGreat

end Numeral

/-- Reads a number. -/
def Number.read : Reader Number := do
  let numeral ← Numeral.read (.unfinished .value)
  match numeral.value with
  | .ok n => pure n
  | .error fault => Reader.fail fault

end ShortForm
