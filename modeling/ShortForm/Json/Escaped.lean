import ShortForm.Json.Reader

/-!
# Strings in JSON

A string stands between quotes. Behind a backslash stands a letter for one character, or `u` with
the four hexadecimal digits of a unit of sixteen bits. A character above those units is written as
a pair of surrogates, each by its own escape.

There are two readers. One takes the characters. The other only passes over them, and lets a
surrogate stand alone.
-/

namespace ShortForm.Json

open Reader

/-- The value of a hexadecimal digit. -/
def hexDigit? (c : Char) : Option Nat :=
  if c.isDigit then some (c.toNat - '0'.toNat)
  else if 'a' ≤ c ∧ c ≤ 'f' then some (c.toNat - 'a'.toNat + 10)
  else if 'A' ≤ c ∧ c ≤ 'F' then some (c.toNat - 'A'.toNat + 10)
  else none

/-- The number that four hexadecimal digits at the front of a text stand for. -/
def hexFront? : List Char → Option (Nat × List Char)
  | a :: b :: c :: d :: rest =>
    match hexDigit? a, hexDigit? b, hexDigit? c, hexDigit? d with
    | some a, some b, some c, some d => some (((a * 16 + b) * 16 + c) * 16 + d, rest)
    | _, _, _, _ => none
  | _ => none

/-- The length of a text in bytes. -/
def byteLength (s : List Char) : Nat := (String.ofList s).utf8ByteSize

theorem length_le_of_hexFront? {s rest : List Char} {n : Nat} (h : hexFront? s = some (n, rest)) :
    rest.length ≤ s.length := by
  unfold hexFront? at h
  split at h
  · split at h
    · cases h
      simp only [List.length_cons]
      omega
    · cases h
  · cases h

/-- Four hexadecimal digits. A text that has no room for them ends too early, which is counted in
bytes; otherwise what is there is no escape. -/
def hexUnit : Reader Nat where
  run s :=
    match hexFront? s with
    | some read => .ok read
    | none => .error (if byteLength s < 4 then .unfinished .string else .badEscape)
  length_le := by
    intro s n rest h
    split at h
    · cases h
      exact length_le_of_hexFront? ‹_›
    · cases h

/-- A unit that is the first half of a pair. -/
def isHighSurrogate (n : Nat) : Bool := 0xD800 ≤ n && n < 0xDC00

/-- A unit that is the second half of a pair. -/
def isLowSurrogate (n : Nat) : Bool := 0xDC00 ≤ n && n < 0xE000

/-- Inside a string: drops a character that has to stand here. -/
def pairMark (c : Char) : Reader Unit := do
  match ← peek with
  | none => fail (.unfinished .string)
  | some d => if d = c then next else fail .openSurrogate

/-- The character behind `\u`. A pair of surrogates is one character. -/
def unicodeEscape : Reader Char := do
  let high ← hexUnit
  if isLowSurrogate high then fail .loneSurrogate
  else if isHighSurrogate high then
    pairMark '\\'
    pairMark 'u'
    let low ← hexUnit
    if isLowSurrogate low then
      pure (.ofNat (0x10000 + (high - 0xD800) * 0x400 + (low - 0xDC00)))
    else fail .loneSurrogate
  else pure (.ofNat high)

/-- The character that a letter stands for behind a backslash. -/
def letterEscape? : Char → Option Char
  | '"' => some '"'
  | '\\' => some '\\'
  | '/' => some '/'
  | 'b' => some '\x08'
  | 'f' => some '\x0c'
  | 'n' => some '\n'
  | 'r' => some '\r'
  | 't' => some '\t'
  | _ => none

/-- What stands behind a backslash: a letter, or what the reader makes of the text behind `u`. -/
def escape {α : Type} (letter : Char → α) (unicode : Reader α) : Reader α := do
  match ← peek with
  | none => fail (.unfinished .string)
  | some c =>
    match letterEscape? c with
    | some d => do
      next
      pure (letter d)
    | none =>
      if c = 'u' then do
        next
        unicode
      else fail .badEscape

/-- What a character inside a string does to what has been taken, last first: the quote ends the
string, a backslash begins an escape, and anything else above the controls is taken. Characters
that stand for themselves, or behind a backslash for one character, are taken by the same function,
other escapes by a reader. -/
def insideStep {α : Type} (plain : Char → α) (unicode : Reader α) (taken : List α) (c : Char) :
    Reader (List α ⊕ List α) :=
  if c = '"' then pure (.inl taken.reverse)
  else if c = '\\' then do
    let a ← escape plain unicode
    pure (.inr (a :: taken))
  else if c < ' ' then fail .controlCharacter
  else pure (.inr (plain c :: taken))

/-- The inside of a string up to and with the closing quote. -/
def inside {α : Type} (plain : Char → α) (unicode : Reader α) : Reader (List α) :=
  loop (insideStep plain unicode) (.unfinished .string) []

/-- The rest of a string whose opening quote has been read. -/
def stringRest : Reader String := do
  let cs ← inside id unicodeEscape
  pure (.ofList cs)

/-- Passes over the rest of a string. Every unit may be escaped. -/
def passStringRest : Reader Unit := do
  let _ ← inside (fun _ => ()) (do let _ ← hexUnit)

end ShortForm.Json
