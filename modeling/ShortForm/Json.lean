import ShortForm.Binary64

/-!
# JSON values

A JSON value as it stands in a text: members of an object keep their order and their repetitions.
Numbers come in two kinds. A number without fraction and exponent is whole as long as a 64-bit word
holds it, signed or unsigned; every other number is a double.
-/

namespace ShortForm

/-- A JSON number. -/
inductive Number where
  /-- A whole number from `-2^63` up to `2^64 - 1`. -/
  | int (n : Int)
  | float (x : Binary64)
  deriving DecidableEq

/-- A JSON value. -/
inductive Json where
  | null
  | bool (b : Bool)
  | number (n : Number)
  | string (s : String)
  | array (items : List Json)
  | object (members : List (String × Json))

/-- The word of 32 bits that a number is. Only whole numbers are words. -/
def Number.word? : Number → Option UInt32
  | int n => if 0 ≤ n ∧ n < 0x100000000 then some (.ofNat n.toNat) else none
  | float _ => none

/-- The JSON value of a word of 32 bits. -/
def Json.ofWord (w : UInt32) : Json := .number (.int w.toNat)

/-- The word that a JSON value is. -/
def Json.word? : Json → Option UInt32
  | number n => n.word?
  | _ => none

end ShortForm
