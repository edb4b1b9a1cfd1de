import ShortForm.Json.Fault

/-!
# Readers

A reader takes a value from the front of a text and leaves the rest, or reports a fault. What it
leaves is never longer than what it was given; that is part of being a reader, so a loop that eats
a character in each round comes to an end whatever else it runs.
-/

namespace ShortForm

/-- Takes an `α` from the front of a text. -/
structure Reader (α : Type) where
  run : List Char → Except Fault (α × List Char)
  length_le : ∀ {s a rest}, run s = .ok (a, rest) → rest.length ≤ s.length

namespace Reader

variable {α β σ : Type}

/-- Takes nothing. -/
protected def pure (a : α) : Reader α where
  run s := .ok (a, s)
  length_le h := by cases h; exact Nat.le_refl _

/-- Reads one thing after the other. -/
protected def bind (p : Reader α) (f : α → Reader β) : Reader β where
  run s :=
    match p.run s with
    | .error fault => .error fault
    | .ok (a, rest) => (f a).run rest
  length_le := by
    intro s b rest h
    cases first : p.run s with
    | error fault => simp [first] at h
    | ok step =>
      obtain ⟨a, middle⟩ := step
      simp only [first] at h
      exact Nat.le_trans ((f a).length_le h) (p.length_le first)

instance : Monad Reader where
  pure := Reader.pure
  bind := Reader.bind

/-- Reports a fault whatever the text. -/
def fail (fault : Fault) : Reader α where
  run _ := .error fault
  length_le h := by cases h

/-- The next character, which is left in the text. -/
def peek : Reader (Option Char) where
  run s := .ok (s.head?, s)
  length_le h := by cases h; exact Nat.le_refl _

/-- Drops the next character. -/
def next : Reader Unit where
  run s := .ok ((), s.tail)
  length_le h := by cases h; simp

/-- The longest front part of the text whose characters satisfy `p`. -/
def takeWhile (p : Char → Bool) : Reader (List Char) where
  run s := .ok (s.takeWhile p, s.dropWhile p)
  length_le h := by cases h; exact (List.dropWhile_sublist p).length_le

/-- Space, tab, line feed and carriage return stand between tokens without meaning. -/
def isBlank (c : Char) : Bool := c = ' ' || c = '\t' || c = '\n' || c = '\r'

/-- Drops blanks. -/
def blanks : Reader Unit := do
  let _ ← takeWhile isBlank

/-- Eats the text character by character. Each character is handed to the step, which may read on
behind it, and ends the loop with a result or goes on with another state. The text has to go on
until the step ends the loop. -/
def loopRun (step : σ → Char → Reader (α ⊕ σ)) (atEnd : Fault) (state : σ) (s : List Char) :
    Except Fault (α × List Char) :=
  match s with
  | [] => .error atEnd
  | c :: rest =>
    match read : (step state c).run rest with
    | .error fault => .error fault
    | .ok (.inl a, rest') => .ok (a, rest')
    | .ok (.inr state', rest') =>
      have : rest'.length ≤ rest.length := (step state c).length_le read
      loopRun step atEnd state' rest'
termination_by s.length

theorem loopRun_cons (step : σ → Char → Reader (α ⊕ σ)) (atEnd : Fault) (state : σ) (c : Char)
    (rest : List Char) :
    loopRun step atEnd state (c :: rest) =
      match (step state c).run rest with
      | .error fault => .error fault
      | .ok (.inl a, rest') => .ok (a, rest')
      | .ok (.inr state', rest') => loopRun step atEnd state' rest' := by
  rw [loopRun]
  split <;> simp [*]

theorem length_le_of_loopRun {step : σ → Char → Reader (α ⊕ σ)} {atEnd : Fault} {state : σ}
    {s rest : List Char} {a : α} (h : loopRun step atEnd state s = .ok (a, rest)) :
    rest.length ≤ s.length := by
  fun_induction loopRun step atEnd state s with
  | case1 => cases h
  | case2 => cases h
  | case3 state c rest a rest' read =>
    cases h
    exact Nat.le_succ_of_le ((step state c).length_le read)
  | case4 state c rest state' rest' read le ih =>
    exact Nat.le_succ_of_le (Nat.le_trans (ih h) le)

/-- Eats the text character by character; see `loopRun`. -/
def loop (step : σ → Char → Reader (α ⊕ σ)) (atEnd : Fault) (state : σ) : Reader α where
  run := loopRun step atEnd state
  length_le := length_le_of_loopRun

/-- Reads all of a text. Only blanks may follow. -/
def readAll (p : Reader α) (text : String) : Except Fault α :=
  match p.run text.toList with
  | .error fault => .error fault
  | .ok (a, rest) => if rest.all isBlank then .ok a else .error .trailingText

@[simp] theorem run_pure (a : α) (s : List Char) : (pure a : Reader α).run s = .ok (a, s) := rfl

@[simp] theorem run_bind (p : Reader α) (f : α → Reader β) (s : List Char) :
    (p >>= f).run s =
      match p.run s with
      | .error fault => .error fault
      | .ok (a, rest) => (f a).run rest := rfl

/-- Reading one thing after the other succeeds when both do. -/
theorem run_bind_eq_ok {p : Reader α} {f : α → Reader β} {s rest : List Char} {b : β} :
    (p >>= f).run s = .ok (b, rest) ↔
      ∃ a middle, p.run s = .ok (a, middle) ∧ (f a).run middle = .ok (b, rest) := by
  rw [run_bind]
  cases p.run s with
  | error fault => simp
  | ok step =>
    obtain ⟨a, middle⟩ := step
    simp only [Except.ok.injEq, Prod.mk.injEq]
    exact ⟨fun h => ⟨a, middle, ⟨rfl, rfl⟩, h⟩, fun ⟨_, _, ⟨rfl, rfl⟩, h⟩ => h⟩

@[simp] theorem run_fail (fault : Fault) (s : List Char) :
    (fail fault : Reader α).run s = .error fault := rfl

@[simp] theorem run_peek (s : List Char) : peek.run s = .ok (s.head?, s) := rfl

@[simp] theorem run_next (s : List Char) : next.run s = .ok ((), s.tail) := rfl

@[simp] theorem run_takeWhile (p : Char → Bool) (s : List Char) :
    (takeWhile p).run s = .ok (s.takeWhile p, s.dropWhile p) := rfl

@[simp] theorem run_loop_nil (step : σ → Char → Reader (α ⊕ σ)) (atEnd : Fault) (state : σ) :
    (loop step atEnd state).run [] = .error atEnd := by
  simp [loop, loopRun]

@[simp] theorem run_loop_cons (step : σ → Char → Reader (α ⊕ σ)) (atEnd : Fault) (state : σ)
    (c : Char) (rest : List Char) :
    (loop step atEnd state).run (c :: rest) =
      match (step state c).run rest with
      | .error fault => .error fault
      | .ok (.inl a, rest') => .ok (a, rest')
      | .ok (.inr state', rest') => (loop step atEnd state').run rest' :=
  loopRun_cons step atEnd state c rest

/-- A round of a loop: the step, and then its result or the rest of the loop. -/
theorem run_loop_eq_bind (step : σ → Char → Reader (α ⊕ σ)) (atEnd : Fault) (state : σ) (c : Char)
    (rest : List Char) :
    (loop step atEnd state).run (c :: rest) =
      (step state c >>= Sum.elim pure (loop step atEnd)).run rest := by
  rw [run_loop_cons, run_bind]
  cases (step state c).run rest with
  | error fault => rfl
  | ok taken =>
    obtain ⟨outcome, rest'⟩ := taken
    cases outcome with
    | inl a => rfl
    | inr state' => rfl

/-- Readers that make the same of every text are the same. -/
theorem ext {p q : Reader α} (h : ∀ s, p.run s = q.run s) : p = q := by
  cases p
  cases q
  congr
  exact funext h

/-- Reading does not depend on how it is divided. -/
theorem bind_bind {γ : Type} (p : Reader α) (f : α → Reader β) (g : β → Reader γ) :
    p >>= f >>= g = p >>= fun a => f a >>= g := by
  refine ext fun s => ?_
  simp only [run_bind]
  cases p.run s with
  | error fault => rfl
  | ok taken => rfl

/-- Where blanks have been dropped there are none left. -/
@[simp] theorem dropWhile_isBlank_twice (s : List Char) :
    (s.dropWhile isBlank).dropWhile isBlank = s.dropWhile isBlank := by
  induction s with
  | nil => rfl
  | cons c s ih =>
    by_cases blank : isBlank c
    · rw [List.dropWhile_cons_of_pos blank, ih]
    · rw [List.dropWhile_cons_of_neg blank, List.dropWhile_cons_of_neg blank]

theorem isBlank_of_dropWhile_eq {s t : List Char} {c : Char} (h : s.dropWhile isBlank = c :: t) :
    isBlank c = false := by
  have front := List.head?_dropWhile_not isBlank s
  rw [h] at front
  simpa using front

@[simp] theorem run_blanks (s : List Char) : blanks.run s = .ok ((), s.dropWhile isBlank) := rfl

end Reader

end ShortForm
