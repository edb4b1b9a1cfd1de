import ShortForm.Json.Reader

/-!
# Lists and objects

What stands between brackets is read the same way whatever it is read for: item by item, each
changing a state that begins with nothing read. So one reader of lists and one of objects serve
those who build a JSON value, those who build a part of a tree, and those who only pass over.

A comma must be followed by one more item or member. How strictly a closing bracket behind a comma
is looked for is up to the caller.
-/

namespace ShortForm.Json

open Reader

variable {σ : Type}

/-- Behind a comma: an ending text and a closing bracket are faults of their own. -/
def refuseClosing (close : Char) : Reader Unit := do
  blanks
  match ← peek with
  | none => fail (.unfinished .value)
  | some c => if c = close then fail .trailingComma else pure ()

/-- What a character behind an item does: the bracket ends the list, and a comma begins the next
item. -/
def itemStep (behindComma : Reader Unit) (item : σ → Reader σ) (state : σ) (c : Char) :
    Reader (σ ⊕ σ) :=
  if isBlank c then pure (.inr state)
  else if c = ']' then pure (.inl state)
  else if c = ',' then do
    behindComma
    let state' ← item state
    pure (.inr state')
  else fail .noItemEnd

/-- The rest of a list behind an item. -/
def moreItems (behindComma : Reader Unit) (item : σ → Reader σ) : σ → Reader σ :=
  loop (itemStep behindComma item) (.unfinished .list)

section

variable (behindComma : Reader Unit) (item : σ → Reader σ) (state : σ) (s : List Char)

theorem moreItems_nil :
    (moreItems behindComma item state).run [] = .error (.unfinished .list) :=
  run_loop_nil _ _ _

theorem moreItems_blank {c : Char} (blank : isBlank c) :
    (moreItems behindComma item state).run (c :: s) = (moreItems behindComma item state).run s := by
  simp [moreItems, itemStep, blank]

theorem moreItems_close : (moreItems behindComma item state).run (']' :: s) = .ok (state, s) := by
  simp [moreItems, itemStep, isBlank]

theorem moreItems_comma :
    (moreItems behindComma item state).run (',' :: s) =
      ((do
        behindComma
        item state) >>= moreItems behindComma item).run s := by
  have step : itemStep behindComma item state ',' =
      (do
        behindComma
        item state) >>= fun state' => pure (.inr state') := by
    simp [itemStep, isBlank, bind_bind]
  rw [moreItems, run_loop_eq_bind, step, bind_bind]
  rfl

theorem moreItems_other {c : Char} (solid : isBlank c = false) (close : c ≠ ']') (comma : c ≠ ',') :
    (moreItems behindComma item state).run (c :: s) = .error .noItemEnd := by
  simp [moreItems, itemStep, solid, close, comma]

end

/-- The rest of a list whose opening bracket has been read. -/
def listRest (behindComma : Reader Unit) (item : σ → Reader σ) (state : σ) : Reader σ := do
  blanks
  match ← peek with
  | none => fail (.unfinished .list)
  | some c =>
    if c = ']' then do
      next
      pure state
    else do
      let state' ← item state
      moreItems behindComma item state'

/-- The name of a member. The reader is for the rest of it behind the opening quote. -/
def memberName {κ : Type} (nameRest : Reader κ) : Reader κ := do
  blanks
  match ← peek with
  | none => fail (.unfinished .object)
  | some c =>
    if c = '"' then do
      next
      nameRest
    else fail .keyNotString

/-- The colon behind the name of a member. -/
def colon : Reader Unit := do
  blanks
  match ← peek with
  | none => fail (.unfinished .object)
  | some c => if c = ':' then next else fail .noColon

/-- What a character behind a member does: the bracket ends the object, and a comma begins the next
member. -/
def memberStep {κ : Type} (behindComma : Reader Unit) (nameRest : Reader κ)
    (member : σ → κ → Reader σ) (state : σ) (c : Char) : Reader (σ ⊕ σ) :=
  if isBlank c then pure (.inr state)
  else if c = '\x7d' then pure (.inl state)
  else if c = ',' then do
    behindComma
    let name ← memberName nameRest
    let state' ← member state name
    pure (.inr state')
  else fail .noMemberEnd

/-- The rest of an object behind a member. A member is read from behind its name on, with the
colon. -/
def moreMembers {κ : Type} (behindComma : Reader Unit) (nameRest : Reader κ)
    (member : σ → κ → Reader σ) : σ → Reader σ :=
  loop (memberStep behindComma nameRest member) (.unfinished .object)

section

variable {κ : Type} (behindComma : Reader Unit) (nameRest : Reader κ) (member : σ → κ → Reader σ)
  (state : σ) (s : List Char)

theorem moreMembers_close :
    (moreMembers behindComma nameRest member state).run ('\x7d' :: s) = .ok (state, s) := by
  simp [moreMembers, memberStep, isBlank]

theorem moreMembers_comma :
    (moreMembers behindComma nameRest member state).run (',' :: s) =
      ((do
        behindComma
        let name ← memberName nameRest
        member state name) >>= moreMembers behindComma nameRest member).run s := by
  have step : memberStep behindComma nameRest member state ',' =
      (do
        behindComma
        let name ← memberName nameRest
        member state name) >>= fun state' => pure (.inr state') := by
    simp [memberStep, isBlank, bind_bind]
  rw [moreMembers, run_loop_eq_bind, step, bind_bind]
  rfl

end

/-- The rest of an object whose opening bracket has been read. -/
def objectRest {κ : Type} (behindComma : Reader Unit) (nameRest : Reader κ)
    (member : σ → κ → Reader σ) (state : σ) : Reader σ := do
  blanks
  match ← peek with
  | none => fail (.unfinished .object)
  | some c =>
    if c = '\x7d' then do
      next
      pure state
    else do
      let name ← memberName nameRest
      let state' ← member state name
      moreMembers behindComma nameRest member state'

end ShortForm.Json
