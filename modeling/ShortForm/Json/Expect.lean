import ShortForm.Json.Read

/-!
# Asking for a sort of value

Whoever expects a string, a word or a list of known length says so while reading, and the fault
then tells what stood there instead. A scalar of the wrong sort is read to its end first, so a
fault within it is found before the fault that it is; a bracket of the wrong sort is the fault
itself.
-/

namespace ShortForm.Json

open Reader

/-- Says what stands in the text instead of what was expected. -/
def wrongType {α : Type} (expected : Expected) : Reader α :=
  let found (f : Found) : Reader α := fail (.wrongType f expected)
  valueBy (found .null) (fun b => found (.bool b))
    (do
      let n ← Number.read
      found (.number n))
    (do
      let s ← stringRest
      found (.string s))
    (found .list) (found .object)

/-- Reads a string. -/
def readString : Reader String := do
  blanks
  if (← peek) = some '"' then
    next
    stringRest
  else wrongType .string

/-- Reads a word of 32 bits. -/
def readWord : Reader UInt32 := do
  blanks
  let c ← peek
  if c = some '-' ∨ c.any Char.isDigit then
    let n ← Number.read
    match n.word?, n with
    | some w, _ => pure w
    | none, .int n => fail (.outOfRange n .word)
    | none, .float x => fail (.wrongType (.number (.float x)) .word)
  else wrongType .word

/-! ## Lists of known length -/

/-- At the beginning of a list: whether it has an item. -/
def hasItem : Reader Bool := do
  blanks
  match ← peek with
  | none => fail (.unfinished .list)
  | some c => pure (c != ']')

/-- Behind an item of a list: whether another one follows. The comma in front of it is dropped. -/
def hasNextItem : Reader Bool := do
  blanks
  match ← peek with
  | none => fail (.unfinished .list)
  | some c =>
    if c = ']' then pure false
    else if c = ',' then do
      next
      refuseClosing ']'
      pure true
    else fail .noItemEnd

/-- The next item of a list, or what stands for it if there is none. -/
def nextItem {α : Type} (item : Reader α) (absent : α) : Reader α := do
  if ← hasNextItem then item else pure absent

/-- The closing bracket behind the last item that a list can have. -/
def listEnd : Reader Unit := do
  blanks
  match ← peek with
  | none => fail (.unfinished .list)
  | some c =>
    if c = ']' then next
    else if c = ',' then do
      next
      blanks
      if (← peek) = some ']' then fail .trailingComma else fail .trailingText
    else fail .trailingText

end ShortForm.Json
