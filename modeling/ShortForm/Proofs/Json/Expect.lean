import ShortForm.Proofs.Json.Accord
import ShortForm.Json.Expect

/-!
# Asking for a sort of value, by its first character

A reader that asks for a sort of value looks for its first character and otherwise reads what stands
there to say what it is. That is the same as reading a value by its first character, with a fault
for every other sort (`expecting`), and so it is in accord with whatever reads values that way.

A list of known length is read item by item. The loop over a list does the same when it is seen one
item at a time (`listRest_eq_hasItem`, `moreItems_eq_hasNextItem`).
-/

namespace ShortForm.Json

open Reader

variable {α : Type}

/-- Reads a value by its first character, where null and the booleans are not what was expected. -/
def expecting (expected : Expected) (number stringRest list object : Reader α) : Reader α :=
  valueBy (fail (.wrongType .null expected)) (fun b => fail (.wrongType (.bool b) expected))
    number stringRest list object

/-- Reads a number that is not what was expected. -/
def wrongNumber (expected : Expected) : Reader α := do
  let n ← Number.read
  fail (.wrongType (.number n) expected)

/-- Reads the rest of a string that is not what was expected. -/
def wrongString (expected : Expected) : Reader α := do
  let s ← stringRest
  fail (.wrongType (.string s) expected)

/-- A reader that looks at the first character behind blanks, for a reader behind them. -/
theorem run_blanks_peek (f : Option Char → Reader α) (s : List Char) :
    (do
      blanks
      let c ← peek
      f c).run s = (f (s.dropWhile isBlank).head?).run (s.dropWhile isBlank) := rfl

theorem readString_eq :
    readString = expecting .string (wrongNumber .string) stringRest
      (fail (.wrongType .list .string)) (fail (.wrongType .object .string)) := by
  apply ext
  intro s
  rw [readString, run_blanks_peek, expecting, valueBy_blanks]
  have solid := dropWhile_isBlank_twice s
  generalize s.dropWhile isBlank = t at solid ⊢
  cases t with
  | nil => rfl
  | cons c t =>
    by_cases quote : c = '"'
    · subst quote
      rw [valueBy_string]
      rfl
    · simp only [wrongType, valueBy, wrongNumber, run_bind, run_blanks, run_peek, solid,
        List.head?_cons, Option.some.injEq, quote, if_false]

theorem readWord_eq :
    readWord = expecting .word
      (do
        let n ← Number.read
        match n.word?, n with
        | some w, _ => pure w
        | none, .int n => fail (.outOfRange n .word)
        | none, .float x => fail (.wrongType (.number (.float x)) .word))
      (wrongString .word) (fail (.wrongType .list .word)) (fail (.wrongType .object .word)) := by
  apply ext
  intro s
  rw [readWord, run_blanks_peek, expecting, valueBy_blanks]
  have solid := dropWhile_isBlank_twice s
  generalize s.dropWhile isBlank = t at solid ⊢
  cases t with
  | nil => rfl
  | cons c t =>
    by_cases start : c = '-' ∨ c.isDigit
    · rw [valueBy_number _ _ _ _ _ _ _ start]
      have front : some c = some '-' ∨ (some c).any Char.isDigit = true := by simpa using start
      rw [List.head?_cons]
      exact congrArg (fun p : Reader UInt32 => p.run (c :: t)) (if_pos front)
    · have front : ¬ (some c = some '-' ∨ (some c).any Char.isDigit = true) := by simpa using start
      rw [List.head?_cons, if_neg front]
      simp only [wrongType, valueBy, wrongString, run_bind, run_blanks, run_peek, solid,
        List.head?_cons, start, if_false]

/-! ## Lists item by item -/

theorem listRest_eq_hasItem {σ : Type} (behindComma : Reader Unit) (item : σ → Reader σ)
    (state : σ) :
    listRest behindComma item state = (do
      if ← hasItem then item state >>= moreItems behindComma item
      else
        next
        pure state) := by
  apply ext
  intro s
  rw [listRest, run_blanks_peek, hasItem, bind_bind, run_bind, run_blanks]
  simp only [bind_bind, run_bind, run_peek]
  cases (s.dropWhile isBlank).head? with
  | none => rfl
  | some c =>
    by_cases close : c = ']'
    · subst close
      rfl
    · have goesOn : (c != ']') = true := by simpa using close
      simp only [if_neg close, run_pure, goesOn, if_true]

theorem hasNextItem_run_eq (s : List Char) :
    hasNextItem.run s =
      match s.dropWhile isBlank with
      | [] => .error (.unfinished .list)
      | c :: t =>
        if c = ']' then .ok (false, ']' :: t)
        else if c = ',' then (refuseClosing ']' >>= fun _ => pure true).run t
        else .error .noItemEnd := by
  rw [hasNextItem, run_blanks_peek]
  cases s.dropWhile isBlank with
  | nil => rfl
  | cons c t =>
    by_cases close : c = ']'
    · subst close
      rfl
    by_cases comma : c = ','
    · subst comma
      rfl
    · simp only [List.head?_cons, if_neg close, if_neg comma, run_fail]

/-- A list goes on with an item behind a comma, or ends with the bracket. -/
theorem moreItems_eq_hasNextItem {σ : Type} (item : σ → Reader σ) (state : σ) :
    moreItems (refuseClosing ']') item state = (do
      if ← hasNextItem then item state >>= moreItems (refuseClosing ']') item
      else
        next
        pure state) := by
  apply ext
  intro s
  have dropped : (moreItems (refuseClosing ']') item state).run s =
      (moreItems (refuseClosing ']') item state).run (s.dropWhile isBlank) := by
    induction s with
    | nil => rfl
    | cons c s ih =>
      by_cases blank : isBlank c
      · rw [List.dropWhile_cons_of_pos blank, moreItems_blank _ _ _ _ blank, ih]
      · rw [List.dropWhile_cons_of_neg blank]
  rw [dropped, run_bind, hasNextItem_run_eq]
  cases front : s.dropWhile isBlank with
  | nil => exact moreItems_nil _ _ _
  | cons c t =>
    by_cases close : c = ']'
    · subst close
      exact moreItems_close _ _ _ _
    by_cases comma : c = ','
    · subst comma
      rw [moreItems_comma, bind_bind, run_bind]
      simp only [if_neg close, if_true, run_bind]
      cases (refuseClosing ']').run t <;> rfl
    · rw [moreItems_other _ _ _ _ (isBlank_of_dropWhile_eq front) close comma]
      simp only [if_neg close, if_neg comma]

end ShortForm.Json
/-! ## In accord with reading -/

namespace ShortForm.Accord

open Reader Json

variable {α : Type} {A : Accord α Json} {n room : Nat} {expected : Expected}

theorem Upto.wrongNumber (lost : ∀ m, A.lost (.number m) (.wrongType (.number m) expected)) :
    A.Upto n (Json.wrongNumber expected) (Number.read >>= fun m => Pure.pure (.number m)) :=
  Upto.after Number.read fun m => Upto.fail_left (Gives.pure (lost m))

theorem Upto.wrongString (lost : ∀ s, A.lost (.string s) (.wrongType (.string s) expected)) :
    A.Upto n (Json.wrongString expected) (stringRest >>= fun s => Pure.pure (.string s)) :=
  Upto.after stringRest fun s => Upto.fail_left (Gives.pure (lost s))

theorem Upto.wrongList {fault : Fault} (lost : ∀ items, A.lost (.array items) fault)
    (value : Reader Json) : A.Upto n (fail fault) (do Reader.next; arrayRest value) :=
  Upto.fail_left ((Gives.trivial Reader.next).bind fun _ _ =>
    (Gives.trivial _).bind fun items _ => Gives.pure (lost items.reverse))

theorem Upto.wrongObject {fault : Fault} (lost : ∀ members, A.lost (.object members) fault)
    (value : Reader Json) : A.Upto n (fail fault) (do Reader.next; membersRest value) :=
  Upto.fail_left ((Gives.trivial Reader.next).bind fun _ _ =>
    (Gives.trivial _).bind fun members _ => Gives.pure (lost members.reverse))

/-- Whoever asks for a sort of value is in accord with reading when each sort is. -/
theorem Upto.expecting {number₁ string₁ list₁ object₁ : Reader α}
    (null : A.lost .null (.wrongType .null expected))
    (bool : ∀ b, A.lost (.bool b) (.wrongType (.bool b) expected))
    (number : A.Upto n number₁ (Number.read >>= fun m => Pure.pure (.number m)))
    (string : A.Upto n string₁ (stringRest >>= fun s => Pure.pure (.string s)))
    (list : A.Upto n list₁ (do Reader.next; arrayRest (read room)))
    (object : A.Upto n object₁ (do Reader.next; membersRest (read room))) :
    A.Upto n (Json.expecting expected number₁ string₁ list₁ object₁) (read (room + 1)) := by
  rw [Json.expecting, Json.read, readScalarOr]
  apply Upto.valueBy
  · exact Upto.fail_left (Gives.pure null)
  · intro b
    exact Upto.fail_left (Gives.pure (bool b))
  · exact number
  · exact string
  · exact list
  · exact object

end ShortForm.Accord
