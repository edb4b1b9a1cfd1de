import ShortForm.Decimal
import ShortForm.Json

/-!
# Writing JSON

The compact text of a JSON value: no blanks, members in their order. In a string the quote, the
backslash and the characters below the space are escaped, with the short escape where there is one;
everything else stands as it is.
-/

namespace ShortForm

/-- Doubles are written positionally while the exponent of the first digit is from -5 to 15, and in
scientific form elsewhere; of two equally near decimals the one with the even last digit. -/
def Number.floatStyle : Decimal.Style := ⟨.even, fun exponent => -5 ≤ exponent ∧ exponent ≤ 15⟩

/-- The text of a number. -/
def Number.write : Number → List Char
  | int n => (if n < 0 then ['-'] else []) ++ Nat.toDigits 10 n.natAbs
  | float x => x.decimal floatStyle

namespace Json

/-- A character inside a string. -/
def writeChar (c : Char) : List Char :=
  if c = '"' then ['\\', '"']
  else if c = '\\' then ['\\', '\\']
  else if c = '\x08' then ['\\', 'b']
  else if c = '\t' then ['\\', 't']
  else if c = '\n' then ['\\', 'n']
  else if c = '\x0c' then ['\\', 'f']
  else if c = '\r' then ['\\', 'r']
  else if c < ' ' then
    ['\\', 'u', '0', '0', Nat.digitChar (c.toNat / 16), Nat.digitChar (c.toNat % 16)]
  else [c]

/-- A string between its quotes. -/
def writeString (s : String) : List Char :=
  '"' :: (s.toList.flatMap writeChar ++ ['"'])

mutual

/-- The compact text of a value. -/
def write : Json → List Char
  | null => "null".toList
  | bool true => "true".toList
  | bool false => "false".toList
  | number n => n.write
  | string s => writeString s
  | array items => '[' :: (writeItems items ++ [']'])
  | object members => '\x7b' :: (writeMembers members ++ ['\x7d'])

/-- The items of an array with commas between them. -/
def writeItems : List Json → List Char
  | [] => []
  | j :: rest => j.write ++ writeMoreItems rest

/-- Items after the first, each behind a comma. -/
def writeMoreItems : List Json → List Char
  | [] => []
  | j :: rest => ',' :: (j.write ++ writeMoreItems rest)

/-- The members of an object with commas between them. -/
def writeMembers : List (String × Json) → List Char
  | [] => []
  | (name, j) :: rest => writeString name ++ ':' :: (j.write ++ writeMoreMembers rest)

/-- Members after the first, each behind a comma. -/
def writeMoreMembers : List (String × Json) → List Char
  | [] => []
  | (name, j) :: rest => ',' :: (writeString name ++ ':' :: (j.write ++ writeMoreMembers rest))

end

/-- The compact text of a value. -/
def text (j : Json) : String := String.ofList j.write

end Json

end ShortForm
