import ShortForm.Text.Extender
import ShortForm.Text.Unseen

/-!
# Quoted texts

A text as it is shown in a message: between double quotes, with every character escaped that would
not be seen or would change how its neighbours look. What has a short escape is written so; every
other escaped character by its number.
-/

namespace ShortForm.Quoted

/-- A character shown by its number, in lower case and without leading zeros. -/
def byNumber (c : Char) : List Char :=
  ['\\', 'u', '\x7b'] ++ Nat.toDigits 16 c.toNat ++ ['\x7d']

/-- A character between the quotes. -/
def escape (c : Char) : List Char :=
  if c = '\x00' then ['\\', '0']
  else if c = '\t' then ['\\', 't']
  else if c = '\n' then ['\\', 'n']
  else if c = '\r' then ['\\', 'r']
  else if c = '"' then ['\\', '"']
  else if c = '\\' then ['\\', '\\']
  else if isExtender c || isUnseen c then byNumber c
  else [c]

/-- A text between its quotes. -/
def quote (s : String) : String :=
  String.ofList ('"' :: (s.toList.flatMap escape ++ ['"']))

end ShortForm.Quoted
