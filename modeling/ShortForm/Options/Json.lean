import ShortForm.Json.Expect
import ShortForm.Options

/-!
# Options as JSON

Options are written as an object. They are read from an object, in which each option may be left
out and other members mean nothing, or from an array of the options in their order.
-/

namespace ShortForm.Options

open Reader Json

/-- The name that the placeholder is written under. -/
def placeholderName : String := "placeholder"

/-- The JSON value of options. -/
def toJson (options : Options) : Json := .object [(placeholderName, .string options.placeholder)]

/-- The options with this placeholder, if there is one. -/
def ofPlaceholder? : Option String → Options
  | some placeholder => { placeholder }
  | none => {}

/-- Reads a member from behind its name on, with the placeholder if it has been read. -/
def readMember (placeholder : Option String) (name : String) : Reader (Option String) :=
  if name = placeholderName then
    if placeholder.isSome then fail (.duplicateField placeholderName)
    else do
      colon
      let s ← readString
      pure (some s)
  else do
    colon
    pass
    pure placeholder

/-- Reads the rest of options that are written as an object. -/
def readMembers : Reader Options := do
  let placeholder ← objectRest (refuseClosing '\x7d') stringRest readMember none
  pure (ofPlaceholder? placeholder)

/-- Reads the rest of options that are written as an array. -/
def readItems : Reader Options := do
  if ← hasItem then
    let placeholder ← readString
    listEnd
    pure { placeholder }
  else
    next
    pure {}

/-- Reads options. -/
def read : Reader Options := do
  blanks
  let c ← peek
  if c = some '[' then
    next
    readItems
  else if c = some '\x7b' then
    next
    readMembers
  else wrongType .options

end ShortForm.Options
