import ShortForm.Json.Bracket
import ShortForm.Json.Numeral
import ShortForm.Json.Escaped

/-!
# Reading JSON

A value is told by its first character. Brackets may be nested to a fixed depth; the bracket that
goes too deep is the fault, whatever stands behind it.

`read` takes a value and keeps it. `pass` goes over one without keeping it: it lets brackets nest
without limit, numbers be of any size and surrogates stand alone, and it does not look for a
closing bracket behind a comma.
-/

namespace ShortForm.Json

open Reader

/-- How deep brackets may be nested. -/
def maxDepth : Nat := 127

/-- One of the three words, letter by letter. -/
def word : List Char → Reader Unit
  | [] => pure ()
  | c :: rest => do
    match ← peek with
    | none => fail (.unfinished .value)
    | some d =>
      if d = c then do
        next
        word rest
      else fail .badWord

/-- A value, by what each sort of value is read with. A number is left to its reader as a whole,
and brackets are left in the text; of a string the opening quote is dropped, and of the words
everything. -/
def valueBy {α : Type} (null : Reader α) (bool : Bool → Reader α) (number : Reader α)
    (stringRest : Reader α) (list : Reader α) (object : Reader α) : Reader α := do
  blanks
  match ← peek with
  | none => fail (.unfinished .value)
  | some c =>
    if c = 'n' then do
      word "null".toList
      null
    else if c = 't' then do
      word "true".toList
      bool true
    else if c = 'f' then do
      word "false".toList
      bool false
    else if c = '-' ∨ c.isDigit then number
    else if c = '"' then do
      next
      stringRest
    else if c = '[' then list
    else if c = '\x7b' then object
    else fail .noValue

section

variable {α : Type} (null : Reader α) (bool : Bool → Reader α) (number : Reader α)
  (stringRest : Reader α) (list : Reader α) (object : Reader α) (rest : List Char)

theorem valueBy_nil :
    (valueBy null bool number stringRest list object).run [] = .error (.unfinished .value) :=
  rfl

theorem valueBy_blanks (s : List Char) :
    (valueBy null bool number stringRest list object).run s =
      (valueBy null bool number stringRest list object).run (s.dropWhile isBlank) := by
  rw [valueBy, run_bind, run_bind, run_blanks, run_blanks, dropWhile_isBlank_twice]

theorem valueBy_null :
    (valueBy null bool number stringRest list object).run ("null".toList ++ rest) =
      null.run rest :=
  rfl

theorem valueBy_true :
    (valueBy null bool number stringRest list object).run ("true".toList ++ rest) =
      (bool true).run rest :=
  rfl

theorem valueBy_false :
    (valueBy null bool number stringRest list object).run ("false".toList ++ rest) =
      (bool false).run rest :=
  rfl

theorem valueBy_string :
    (valueBy null bool number stringRest list object).run ('"' :: rest) = stringRest.run rest :=
  rfl

theorem valueBy_list :
    (valueBy null bool number stringRest list object).run ('[' :: rest) = list.run ('[' :: rest) :=
  rfl

theorem valueBy_object :
    (valueBy null bool number stringRest list object).run ('\x7b' :: rest) =
      object.run ('\x7b' :: rest) :=
  rfl

/-- A minus sign or a digit begins a number. -/
theorem valueBy_number {c : Char} (start : c = '-' ∨ c.isDigit) :
    (valueBy null bool number stringRest list object).run (c :: rest) = number.run (c :: rest) := by
  have other : ∀ d : Char, d.isDigit = false → d ≠ '-' → c ≠ d := by
    rintro d digit minus rfl
    rcases start with rfl | start
    · exact minus rfl
    · simp [digit] at start
  have solid : isBlank c = false := by
    simp [isBlank, other]
  have front : (c :: rest).dropWhile isBlank = c :: rest :=
    List.dropWhile_cons_of_neg (by simp [solid])
  rw [valueBy, run_bind, run_blanks, front]
  simp only [run_bind, run_peek, List.head?_cons, start, if_true, if_false,
    other 'n' (by decide) (by decide), other 't' (by decide) (by decide),
    other 'f' (by decide) (by decide)]

end

/-- The next item of a list, put in front of those before it. -/
def item (value : Reader Json) (items : List Json) : Reader (List Json) := do
  let j ← value
  pure (j :: items)

/-- The next member of an object, put in front of those before it. -/
def member (value : Reader Json) (members : List (String × Json)) (name : String) :
    Reader (List (String × Json)) := do
  colon
  let j ← value
  pure ((name, j) :: members)

/-- The rest of a list. -/
def arrayRest (value : Reader Json) : Reader Json := do
  let items ← listRest (refuseClosing ']') (item value) []
  pure (array items.reverse)

/-- The rest of an object. -/
def membersRest (value : Reader Json) : Reader Json := do
  let members ← objectRest (refuseClosing '\x7d') stringRest (member value) []
  pure (object members.reverse)

/-- Reads a value that is no list and no object, or leaves it to these readers. -/
def readScalarOr (list object : Reader Json) : Reader Json :=
  valueBy (pure null) (fun b => pure (bool b))
    (do
      let n ← Number.read
      pure (number n))
    (do
      let s ← stringRest
      pure (string s))
    list object

/-- Reads a value with this much room for nested brackets. -/
def read : Nat → Reader Json
  | 0 => readScalarOr (fail .tooDeep) (fail .tooDeep)
  | room + 1 =>
    readScalarOr
      (do
        next
        arrayRest (read room))
      (do
        next
        membersRest (read room))

/-- However much room there is, scalars are read alike. -/
theorem read_eq_readScalarOr (room : Nat) :
    ∃ list object, read room = readScalarOr list object := by
  cases room with
  | zero => exact ⟨_, _, rfl⟩
  | succ room => exact ⟨_, _, rfl⟩

/-- Passes over a value that is no list and no object, or leaves it to these readers. -/
def passScalarOr (list object : Reader Unit) : Reader Unit :=
  valueBy (pure ()) (fun _ => pure ())
    (do
      let _ ← Numeral.read .badNumber)
    passStringRest list object

/-- Passes over a member of an object from behind its name on. -/
def passMember (value : Reader Unit) : Reader Unit := do
  colon
  value

/-- Passes over a value whose brackets are nested no deeper than this. -/
def passWithin : Nat → Reader Unit
  | 0 => passScalarOr (fail .tooDeep) (fail .tooDeep)
  | room + 1 =>
    passScalarOr
      (do
        next
        listRest (pure ()) (fun _ => passWithin room) ())
      (do
        next
        objectRest (pure ()) passStringRest (fun _ _ => passMember (passWithin room)) ())

/-- However much room there is, scalars are passed over alike. -/
theorem passWithin_eq_passScalarOr (room : Nat) :
    ∃ list object, passWithin room = passScalarOr list object := by
  cases room with
  | zero => exact ⟨_, _, rfl⟩
  | succ room => exact ⟨_, _, rfl⟩

/-- Passes over a value. No text nests brackets deeper than it is long. -/
def pass : Reader Unit where
  run s := (passWithin s.length).run s
  length_le h := (passWithin _).length_le h

end ShortForm.Json
