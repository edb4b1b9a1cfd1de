import ShortForm.Json.Write
import ShortForm.Text.Quoted

/-!
# Faults

Why a text could not be read. A text can end too early, break a rule of JSON, or be well formed so
far and not be what was asked for. Every fault has one wording.
-/

namespace ShortForm

/-- What a text ended inside of. -/
inductive Unfinished where
  | value | list | object | string
  deriving DecidableEq

/-- What stood in the text where something else was expected. -/
inductive Found where
  | null
  | bool (b : Bool)
  | number (n : Number)
  | string (s : String)
  | list
  | object
  deriving DecidableEq

/-- What was expected. -/
inductive Expected where
  | string
  /-- A whole number of 32 bits. -/
  | word
  | object
  | node
  | options
  deriving DecidableEq

/-- Why a text could not be read. -/
inductive Fault where
  /-- The text ends too early. -/
  | unfinished (inside : Unfinished)
  /-- No value begins with this character. -/
  | noValue
  /-- One of the three words is not spelled out. -/
  | badWord
  /-- A number is not written as numbers are. -/
  | badNumber
  /-- A number is too great for a double. -/
  | numberTooGreat
  | noColon
  /-- After an item there is neither a comma nor the end of the list. -/
  | noItemEnd
  /-- After a member there is neither a comma nor the end of the object. -/
  | noMemberEnd
  | keyNotString
  | trailingComma
  /-- Text follows where nothing should. -/
  | trailingText
  /-- Brackets are nested too deeply. -/
  | tooDeep
  | controlCharacter
  | badEscape
  /-- A surrogate stands without the other half of its pair. -/
  | loneSurrogate
  /-- The first half of a surrogate pair is not followed by an escape. -/
  | openSurrogate
  | wrongType (found : Found) (expected : Expected)
  /-- A whole number does not fit. -/
  | outOfRange (n : Int) (expected : Expected)
  | missingField (name : String)
  | duplicateField (name : String)
  /-- An empty list cannot stand for a node. -/
  | emptyNode
  /-- The value is of no shape that a tree has. -/
  | noShape
  deriving DecidableEq

/-- The three kinds of faults. -/
inductive FaultKind where
  /-- A rule of JSON is broken. -/
  | form
  /-- The text ends too early. -/
  | ending
  /-- The text is well formed so far and not what was asked for. -/
  | shape
  deriving DecidableEq

/-- The kind of a fault. -/
def Fault.kind : Fault → FaultKind
  | unfinished _ => .ending
  | wrongType _ _ | outOfRange _ _ | missingField _ | duplicateField _ | emptyNode | noShape =>
    .shape
  | _ => .form

/-- The wording of what a text ended inside of. -/
def Unfinished.wording : Unfinished → String
  | value => "a value"
  | list => "a list"
  | object => "an object"
  | string => "a string"

/-- The wording of what stood in the text. -/
def Found.wording : Found → String
  | null => "null"
  | bool b => "boolean `" ++ (if b then "true" else "false") ++ "`"
  | number (.int n) => "integer `" ++ String.ofList (Number.int n).write ++ "`"
  | number (.float x) => "floating point `" ++ String.ofList (Number.float x).write ++ "`"
  | string s => "string " ++ Quoted.quote s
  | list => "sequence"
  | object => "map"

/-- The wording of what was expected. -/
def Expected.wording : Expected → String
  | string => "a string"
  | word => "u32"
  | object => "a map"
  | node => "struct Node"
  | options => "struct ReverterOptions"

/-- The wording of a fault. -/
def Fault.message : Fault → String
  | unfinished inside => "EOF while parsing " ++ inside.wording
  | noValue => "expected value"
  | badWord => "expected ident"
  | badNumber => "invalid number"
  | numberTooGreat => "number out of range"
  | noColon => "expected `:`"
  | noItemEnd => "expected `,` or `]`"
  | noMemberEnd => "expected `,` or `\x7d`"
  | keyNotString => "key must be a string"
  | trailingComma => "trailing comma"
  | trailingText => "trailing characters"
  | tooDeep => "recursion limit exceeded"
  | controlCharacter =>
    "control character (\\u0000-\\u001F) found while parsing a string"
  | badEscape => "invalid escape"
  | loneSurrogate => "lone leading surrogate in hex escape"
  | openSurrogate => "unexpected end of hex escape"
  | wrongType found expected =>
    "invalid type: " ++ found.wording ++ ", expected " ++ expected.wording
  | outOfRange n expected =>
    "invalid value: " ++ (Found.number (.int n)).wording ++ ", expected " ++ expected.wording
  | missingField name => "missing field `" ++ name ++ "`"
  | duplicateField name => "duplicate field `" ++ name ++ "`"
  | emptyNode => "invalid length 0, expected " ++ Expected.node.wording ++ " with 4 elements"
  | noShape => "data did not match any variant of untagged enum Value"

end ShortForm
