import ShortForm.Json.Read

/-!
# Readers in accord

Two readers of one text may do different things with it: one recognises what the other keeps, or
passes over it. They are in accord when what they take fits together, and where only one of them
takes something, what it takes fits the fault of the other (`Accord`). When both report a fault
nothing is asked; which fault is found first depends on the order in which a reader looks.

Accord is closed under reading one thing after the other (`Upto.bind`), under reading what stands
between brackets (`Upto.listRest`, `Upto.objectRest`), and under telling a value by its first
character (`Upto.valueBy`). It is asked for of texts up to a length, because a reader that is given
room by the length of its text is in accord with others only there.
-/

namespace ShortForm

/-- What it takes for two readers to be in accord. -/
structure Accord (α β : Type) where
  /-- Both may take these from one text. -/
  same : α → β → Prop
  /-- The second may take this where the first reports this fault. -/
  lost : β → Fault → Prop
  /-- The first may take this where the second reports this fault. -/
  loose : α → Fault → Prop

namespace Reader

variable {α β : Type}

/-- Whatever the reader takes is such. -/
def Gives (p : Reader α) (P : α → Prop) : Prop :=
  ∀ ⦃s a rest⦄, p.run s = .ok (a, rest) → P a

theorem Gives.pure {P : α → Prop} {a : α} (h : P a) : (Pure.pure a : Reader α).Gives P := by
  intro s b rest run
  simp only [run_pure, Except.ok.injEq, Prod.mk.injEq] at run
  exact run.1 ▸ h

theorem Gives.fail {P : α → Prop} (fault : Fault) : (Reader.fail fault : Reader α).Gives P := by
  intro s a rest run
  cases run

theorem Gives.trivial (p : Reader α) : p.Gives fun _ => True := fun _ _ _ _ => True.intro

theorem Gives.bind {p : Reader α} {f : α → Reader β} {P : α → Prop} {Q : β → Prop}
    (first : p.Gives P) (more : ∀ a, P a → (f a).Gives Q) : (p >>= f).Gives Q := by
  intro s b rest run
  obtain ⟨a, middle, run, run'⟩ := run_bind_eq_ok.mp run
  exact more a (first run) run'

/-- What a step that keeps to a loop's condition leads to keeps to it. -/
theorem Gives.loop {σ : Type} {step : σ → Char → Reader (α ⊕ σ)} {atEnd : Fault} {P : σ → Prop}
    {Q : α → Prop}
    (each : ∀ state c, P state → (step state c).Gives (Sum.elim Q P)) {state : σ} (h : P state) :
    (Reader.loop step atEnd state).Gives Q := by
  intro s a rest run
  induction length : s.length using Nat.strongRecOn generalizing s state with
  | ind n ih =>
    cases s with
    | nil => simp at run
    | cons c s =>
      rw [run_loop_eq_bind] at run
      obtain ⟨outcome, middle, taken, run⟩ := run_bind_eq_ok.mp run
      have kept := each state c h taken
      have shorter := (step state c).length_le taken
      cases outcome with
      | inl b =>
        have ended : (Pure.pure b : Reader α).Gives Q := Gives.pure kept
        exact ended run
      | inr state' =>
        rw [List.length_cons] at length
        exact ih middle.length (by omega) kept run rfl

end Reader

namespace Accord

open Reader

variable {α β α' β' : Type} {A : Accord α β} {B : Accord α' β'} {n : Nat}

/-- The outcomes of two readers on one text are in accord. Where both take something they leave the
same rest. -/
def Holds (A : Accord α β) (x : Except Fault (α × List Char)) (y : Except Fault (β × List Char)) :
    Prop :=
  match x, y with
  | .ok (a, rest), .ok (b, rest') => A.same a b ∧ rest = rest'
  | .error fault, .ok (b, _) => A.lost b fault
  | .ok (a, _), .error fault => A.loose a fault
  | .error _, .error _ => True

/-- Two readers are in accord on every text up to a length. -/
def Upto (A : Accord α β) (n : Nat) (p : Reader α) (q : Reader β) : Prop :=
  ∀ s, s.length ≤ n → A.Holds (p.run s) (q.run s)

/-- Both take the same, and report faults together. -/
def equal (α : Type) : Accord α α := ⟨Eq, fun _ _ => False, fun _ _ => False⟩

theorem Upto.refl (p : Reader α) : (equal α).Upto n p p := by
  intro s _
  unfold Holds
  cases p.run s with
  | error fault => exact True.intro
  | ok taken => exact ⟨rfl, rfl⟩

theorem Upto.pure {a : α} {b : β} (h : A.same a b) :
    A.Upto n (Pure.pure a : Reader α) (Pure.pure b : Reader β) :=
  fun _ _ => ⟨h, rfl⟩

/-- Where the first reader only reports a fault, all is up to what the second gives. -/
theorem Upto.fail_left {fault : Fault} {q : Reader β} (h : q.Gives (A.lost · fault)) :
    A.Upto n (Reader.fail fault) q := by
  intro s _
  rw [run_fail]
  cases run : q.run s with
  | error other => exact True.intro
  | ok taken => exact h run

/-- Where the second reader only reports a fault, all is up to what the first gives. -/
theorem Upto.fail_right {fault : Fault} {p : Reader α} (h : p.Gives (A.loose · fault)) :
    A.Upto n p (Reader.fail fault) := by
  intro s _
  rw [run_fail]
  cases run : p.run s with
  | error other => exact True.intro
  | ok taken => exact h run

/-- Outcomes in accord are followed by outcomes in accord. -/
theorem Holds.bind {p : Reader α} {q : Reader β} {f : α → Reader α'} {g : β → Reader β'}
    {s : List Char} (first : A.Holds (p.run s) (q.run s))
    (more : ∀ a b rest, A.same a b → rest.length ≤ s.length →
      B.Holds ((f a).run rest) ((g b).run rest))
    (lost : ∀ b fault, A.lost b fault → (g b).Gives (B.lost · fault))
    (loose : ∀ a fault, A.loose a fault → (f a).Gives (B.loose · fault)) :
    B.Holds ((p >>= f).run s) ((q >>= g).run s) := by
  rw [run_bind, run_bind]
  cases left : p.run s with
  | error fault =>
    cases right : q.run s with
    | error fault' => exact True.intro
    | ok taken =>
      obtain ⟨b, rest⟩ := taken
      rw [left, right] at first
      simp only
      cases run : (g b).run rest with
      | error fault' => exact True.intro
      | ok taken => exact lost b fault first run
  | ok taken =>
    obtain ⟨a, rest⟩ := taken
    cases right : q.run s with
    | error fault =>
      rw [left, right] at first
      simp only
      cases run : (f a).run rest with
      | error fault' => exact True.intro
      | ok taken => exact loose a fault first run
    | ok taken =>
      obtain ⟨b, rest'⟩ := taken
      rw [left, right] at first
      obtain ⟨same, rfl⟩ := first
      exact more a b rest same (p.length_le left)

/-- Readers in accord are followed by readers in accord, where what follows a fault of one reader
cannot mend it. -/
theorem Upto.bind {p : Reader α} {q : Reader β} {f : α → Reader α'} {g : β → Reader β'}
    (first : A.Upto n p q) (more : ∀ a b, A.same a b → B.Upto n (f a) (g b))
    (lost : ∀ b fault, A.lost b fault → (g b).Gives (B.lost · fault))
    (loose : ∀ a fault, A.loose a fault → (f a).Gives (B.loose · fault)) :
    B.Upto n (p >>= f) (q >>= g) :=
  fun s bound => (first s bound).bind
    (fun a b rest same shorter => more a b same rest (Nat.le_trans shorter bound)) lost loose

/-- What both take alike is followed by readers in accord. -/
theorem Upto.equal_bind {p q : Reader α} {f : α → Reader α'} {g : α → Reader β'}
    (first : (equal α).Upto n p q) (more : ∀ a, B.Upto n (f a) (g a)) :
    B.Upto n (p >>= f) (q >>= g) := by
  refine first.bind (fun a b same => ?_) (fun _ _ never => never.elim) fun _ _ never => never.elim
  obtain rfl : a = b := same
  exact more a

/-- What both begin with is followed by readers in accord. -/
theorem Upto.after (p : Reader α) {f : α → Reader α'} {g : α → Reader β'}
    (more : ∀ a, B.Upto n (f a) (g a)) : B.Upto n (p >>= f) (p >>= g) :=
  (Upto.refl p).equal_bind more

/-- What is read fits what is made of it. -/
theorem Upto.made {p : Reader α} {f : α → β} (h : ∀ a, A.same a (f a)) :
    A.Upto n p (p >>= fun a => Pure.pure (f a)) := by
  intro s _
  rw [run_bind]
  cases p.run s with
  | error fault => exact True.intro
  | ok taken => exact ⟨h taken.1, rfl⟩

/-- What is made of what is read fits if what is read does. -/
theorem Upto.bind_pure {B : Accord α β'} {p : Reader α} {q : Reader β} {f : β → β'}
    (first : A.Upto n p q) (same : ∀ a b, A.same a b → B.same a (f b))
    (lost : ∀ b fault, A.lost b fault → B.lost (f b) fault)
    (loose : ∀ a fault, A.loose a fault → B.loose a fault) :
    B.Upto n p (q >>= fun b => Pure.pure (f b)) := by
  intro s bound
  have here := first s bound
  rw [run_bind]
  cases right : q.run s with
  | error fault =>
    cases left : p.run s with
    | error _ => exact True.intro
    | ok taken =>
      rw [left, right] at here
      exact loose _ _ here
  | ok taken =>
    cases left : p.run s with
    | error _ =>
      rw [left, right] at here
      exact lost _ _ here
    | ok taken' =>
      rw [left, right] at here
      exact ⟨same _ _ here.1, here.2⟩

/-! ## Loops -/

section Loops

variable {σ τ : Type} {A : Accord σ τ}

/-- Accord in a round of a loop: both end it, or both go on. -/
def round (A : Accord σ τ) : Accord (σ ⊕ σ) (τ ⊕ τ) where
  same
    | .inl a, .inl b | .inr a, .inr b => A.same a b
    | _, _ => False
  lost y fault := y.elim (A.lost · fault) (A.lost · fault)
  loose x fault := x.elim (A.loose · fault) (A.loose · fault)

/-- **Loops are in accord** when their rounds are, and no later round mends a fault. -/
theorem Upto.loop {step₁ : σ → Char → Reader (σ ⊕ σ)} {step₂ : τ → Char → Reader (τ ⊕ τ)}
    {atEnd : Fault} (each : ∀ a b c, A.same a b → A.round.Upto n (step₁ a c) (step₂ b c))
    (lost : ∀ b c fault, A.lost b fault → (step₂ b c).Gives (A.round.lost · fault))
    (loose : ∀ a c fault, A.loose a fault → (step₁ a c).Gives (A.round.loose · fault))
    {a : σ} {b : τ} (same : A.same a b) :
    A.Upto n (loop step₁ atEnd a) (loop step₂ atEnd b) := by
  intro s bound
  induction length : s.length using Nat.strongRecOn generalizing s a b with
  | ind m ih =>
    cases s with
    | nil =>
      rw [run_loop_nil, run_loop_nil]
      exact True.intro
    | cons c s =>
      rw [List.length_cons] at length bound
      rw [run_loop_eq_bind, run_loop_eq_bind]
      refine (each a b c same s (by omega)).bind ?_ ?_ ?_
      · intro x y rest same' shorter
        cases x with
        | inl a' =>
          cases y with
          | inl b' => exact ⟨same', rfl⟩
          | inr b' => exact same'.elim
        | inr a' =>
          cases y with
          | inl b' => exact same'.elim
          | inr b' => exact ih rest.length (by omega) same' rest (by omega) rfl
      · intro y fault stays
        cases y with
        | inl b' => exact Gives.pure stays
        | inr b' => exact Gives.loop (fun b c stays => lost b c fault stays) stays
      · intro x fault stays
        cases x with
        | inl a' => exact Gives.pure stays
        | inr a' => exact Gives.loop (fun a c stays => loose a c fault stays) stays

end Loops

end Accord

/-! ## Between brackets -/

namespace Json

open Reader

variable {σ κ : Type} {behindComma : Reader Unit} {P : σ → Prop}

theorem gives_itemStep {item : σ → Reader σ} {state : σ} (each : (item state).Gives P)
    (h : P state) (c : Char) : (itemStep behindComma item state c).Gives (Sum.elim P P) := by
  unfold itemStep
  split
  · exact Gives.pure h
  split
  · exact Gives.pure h
  split
  · exact (Gives.trivial behindComma).bind fun _ _ => each.bind fun _ kept => Gives.pure kept
  · exact Gives.fail _

theorem gives_memberStep {nameRest : Reader κ} {member : σ → κ → Reader σ} {state : σ}
    (each : ∀ name, (member state name).Gives P) (h : P state) (c : Char) :
    (memberStep behindComma nameRest member state c).Gives (Sum.elim P P) := by
  unfold memberStep
  split
  · exact Gives.pure h
  split
  · exact Gives.pure h
  split
  · exact (Gives.trivial behindComma).bind fun _ _ =>
      (Gives.trivial (memberName nameRest)).bind fun name _ =>
        (each name).bind fun _ kept => Gives.pure kept
  · exact Gives.fail _

/-- Items that keep to a condition lead to a list that does. -/
theorem gives_moreItems {item : σ → Reader σ} (each : ∀ state, P state → (item state).Gives P)
    {state : σ} (h : P state) : (moreItems behindComma item state).Gives P :=
  Gives.loop (fun state c kept => gives_itemStep (each state kept) kept c) h

/-- Members that keep to a condition lead to an object that does. -/
theorem gives_moreMembers {nameRest : Reader κ} {member : σ → κ → Reader σ}
    (each : ∀ state name, P state → (member state name).Gives P) {state : σ} (h : P state) :
    (moreMembers behindComma nameRest member state).Gives P :=
  Gives.loop (fun state c kept => gives_memberStep (each state · kept) kept c) h

theorem gives_listRest {item : σ → Reader σ} (each : ∀ state, P state → (item state).Gives P)
    {state : σ} (h : P state) : (listRest behindComma item state).Gives P := by
  refine (Gives.trivial blanks).bind fun _ _ => (Gives.trivial peek).bind fun c _ => ?_
  cases c with
  | none => exact Gives.fail _
  | some c =>
    by_cases close : c = ']'
    · simp only [if_pos close]
      exact (Gives.trivial next).bind fun _ _ => Gives.pure h
    · simp only [if_neg close]
      exact (each state h).bind fun _ kept => gives_moreItems each kept

theorem gives_objectRest {nameRest : Reader κ} {member : σ → κ → Reader σ}
    (each : ∀ state name, P state → (member state name).Gives P) {state : σ} (h : P state) :
    (objectRest behindComma nameRest member state).Gives P := by
  refine (Gives.trivial blanks).bind fun _ _ => (Gives.trivial peek).bind fun c _ => ?_
  cases c with
  | none => exact Gives.fail _
  | some c =>
    by_cases close : c = '\x7d'
    · simp only [if_pos close]
      exact (Gives.trivial next).bind fun _ _ => Gives.pure h
    · simp only [if_neg close]
      exact (Gives.trivial (memberName nameRest)).bind fun name _ =>
        (each state name h).bind fun _ kept => gives_moreMembers each kept

end Json

namespace Accord

open Reader Json

section Brackets

variable {σ τ κ κ' : Type} {A : Accord σ τ} {n : Nat} {comma₁ comma₂ : Reader Unit}

/-- What ends a round with a new state is in accord when what makes the state is. -/
theorem Upto.round {p : Reader σ} {q : Reader τ} (h : A.Upto n p q) :
    A.round.Upto n (p >>= fun a => (Pure.pure (Sum.inr a) : Reader (σ ⊕ σ)))
      (q >>= fun b => (Pure.pure (Sum.inr b) : Reader (τ ⊕ τ))) :=
  h.bind (fun _ _ same => Upto.pure same) (fun _ _ stays => Gives.pure stays)
    fun _ _ stays => Gives.pure stays

section Items

variable {item₁ : σ → Reader σ} {item₂ : τ → Reader τ}

theorem Upto.moreItems
    (behind : ∀ a b, A.same a b →
      A.Upto n (comma₁ >>= fun _ => item₁ a) (comma₂ >>= fun _ => item₂ b))
    (lost : ∀ b fault, A.lost b fault → (item₂ b).Gives (A.lost · fault))
    (loose : ∀ a fault, A.loose a fault → (item₁ a).Gives (A.loose · fault))
    {a : σ} {b : τ} (same : A.same a b) :
    A.Upto n (moreItems comma₁ item₁ a) (moreItems comma₂ item₂ b) := by
  refine Upto.loop (fun a b c same => ?_)
    (fun b c fault stays => gives_itemStep (lost b fault stays) stays c)
    (fun a c fault stays => gives_itemStep (loose a fault stays) stays c) same
  unfold itemStep
  by_cases blank : isBlank c
  · simp only [if_pos blank]
    exact Upto.pure same
  by_cases close : c = ']'
  · simp only [if_neg blank, if_pos close]
    exact Upto.pure same
  by_cases comma : c = ','
  · simp only [if_neg blank, if_neg close, if_pos comma]
    have next := (behind a b same).round
    rw [bind_bind, bind_bind] at next
    exact next
  · simp only [if_neg blank, if_neg close, if_neg comma]
    exact Upto.fail_left (Gives.fail _)

/-- **Lists are read in accord** when their items are, and items behind a comma with what is looked
for there; and no later item mends a fault. -/
theorem Upto.listRest
    (front : ∀ a b, A.same a b → A.Upto n (item₁ a) (item₂ b))
    (behind : ∀ a b, A.same a b →
      A.Upto n (comma₁ >>= fun _ => item₁ a) (comma₂ >>= fun _ => item₂ b))
    (lost : ∀ b fault, A.lost b fault → (item₂ b).Gives (A.lost · fault))
    (loose : ∀ a fault, A.loose a fault → (item₁ a).Gives (A.loose · fault))
    {a : σ} {b : τ} (same : A.same a b) :
    A.Upto n (listRest comma₁ item₁ a) (listRest comma₂ item₂ b) := by
  refine Upto.after blanks fun _ => Upto.after peek fun c => ?_
  cases c with
  | none => exact Upto.fail_left (Gives.fail _)
  | some c =>
    by_cases close : c = ']'
    · simp only [if_pos close]
      exact Upto.after next fun _ => Upto.pure same
    · simp only [if_neg close]
      exact (front a b same).bind (fun a b same => Upto.moreItems behind lost loose same)
        (fun b fault stays => gives_moreItems (fun b stays => lost b fault stays) stays)
        fun a fault stays => gives_moreItems (fun a stays => loose a fault stays) stays

end Items

section Members

variable {name₁ : Reader κ} {name₂ : Reader κ'} {member₁ : σ → κ → Reader σ}
  {member₂ : τ → κ' → Reader τ}

theorem Upto.moreMembers
    (behind : ∀ a b, A.same a b →
      A.Upto n (comma₁ >>= fun _ => memberName name₁ >>= member₁ a)
        (comma₂ >>= fun _ => memberName name₂ >>= member₂ b))
    (lost : ∀ b name fault, A.lost b fault → (member₂ b name).Gives (A.lost · fault))
    (loose : ∀ a name fault, A.loose a fault → (member₁ a name).Gives (A.loose · fault))
    {a : σ} {b : τ} (same : A.same a b) :
    A.Upto n (moreMembers comma₁ name₁ member₁ a) (moreMembers comma₂ name₂ member₂ b) := by
  refine Upto.loop (fun a b c same => ?_)
    (fun b c fault stays => gives_memberStep (fun name => lost b name fault stays) stays c)
    (fun a c fault stays => gives_memberStep (fun name => loose a name fault stays) stays c) same
  unfold memberStep
  by_cases blank : isBlank c
  · simp only [if_pos blank]
    exact Upto.pure same
  by_cases close : c = '\x7d'
  · simp only [if_neg blank, if_pos close]
    exact Upto.pure same
  by_cases comma : c = ','
  · simp only [if_neg blank, if_neg close, if_pos comma]
    have next := (behind a b same).round
    simp only [bind_bind] at next
    exact next
  · simp only [if_neg blank, if_neg close, if_neg comma]
    exact Upto.fail_left (Gives.fail _)

/-- **Objects are read in accord** when their members are, from their names on and behind a comma;
and no later member mends a fault. -/
theorem Upto.objectRest
    (front : ∀ a b, A.same a b →
      A.Upto n (memberName name₁ >>= member₁ a) (memberName name₂ >>= member₂ b))
    (behind : ∀ a b, A.same a b →
      A.Upto n (comma₁ >>= fun _ => memberName name₁ >>= member₁ a)
        (comma₂ >>= fun _ => memberName name₂ >>= member₂ b))
    (lost : ∀ b name fault, A.lost b fault → (member₂ b name).Gives (A.lost · fault))
    (loose : ∀ a name fault, A.loose a fault → (member₁ a name).Gives (A.loose · fault))
    {a : σ} {b : τ} (same : A.same a b) :
    A.Upto n (objectRest comma₁ name₁ member₁ a) (objectRest comma₂ name₂ member₂ b) := by
  refine Upto.after blanks fun _ => Upto.after peek fun c => ?_
  cases c with
  | none => exact Upto.fail_left (Gives.fail _)
  | some c =>
    by_cases close : c = '\x7d'
    · simp only [if_pos close]
      exact Upto.after next fun _ => Upto.pure same
    · simp only [if_neg close]
      rw [← bind_bind, ← bind_bind]
      exact (front a b same).bind (fun a b same => Upto.moreMembers behind lost loose same)
        (fun b fault stays => gives_moreMembers (fun b name stays => lost b name fault stays) stays)
        fun a fault stays => gives_moreMembers (fun a name stays => loose a name fault stays) stays

end Members

end Brackets

end Accord

/-! ## Values by their first character -/

namespace Json

open Reader

/-- What a value begins as. -/
inductive Start where
  | null
  | bool (b : Bool)
  | number
  | string
  | list
  | object

/-- Reads what a value begins as, up to where its sort of value is read from. -/
def start : Reader Start :=
  valueBy (pure .null) (fun b => pure (.bool b)) (pure .number) (pure .string) (pure .list)
    (pure .object)

/-- What is read behind the beginning of a value. -/
def Start.pick {α : Type} (null : Reader α) (bool : Bool → Reader α)
    (number stringRest list object : Reader α) : Start → Reader α
  | .null => null
  | .bool b => bool b
  | .number => number
  | .string => stringRest
  | .list => list
  | .object => object

/-- A value is told by its beginning alone. -/
theorem valueBy_eq_bind {α : Type} (null : Reader α) (bool : Bool → Reader α)
    (number stringRest list object : Reader α) :
    valueBy null bool number stringRest list object =
      start >>= Start.pick null bool number stringRest list object := by
  apply ext
  intro s
  simp only [valueBy, start, run_bind, run_blanks, run_peek]
  cases (s.dropWhile isBlank).head? with
  | none => rfl
  | some c =>
    simp only
    split
    · simp only [run_bind]
      cases (word "null".toList).run (s.dropWhile isBlank) <;> rfl
    split
    · simp only [run_bind]
      cases (word "true".toList).run (s.dropWhile isBlank) <;> rfl
    split
    · simp only [run_bind]
      cases (word "false".toList).run (s.dropWhile isBlank) <;> rfl
    split
    · rfl
    split
    · rfl
    split
    · rfl
    split
    · rfl
    · rfl

/-- What every sort of value gives, a value gives. -/
theorem gives_valueBy {α : Type} {P : α → Prop} {null number stringRest list object : Reader α}
    {bool : Bool → Reader α} (null_gives : null.Gives P) (bool_gives : ∀ b, (bool b).Gives P)
    (number_gives : number.Gives P) (string_gives : stringRest.Gives P)
    (list_gives : list.Gives P) (object_gives : object.Gives P) :
    (valueBy null bool number stringRest list object).Gives P := by
  rw [valueBy_eq_bind]
  refine (Gives.trivial start).bind fun sort _ => ?_
  cases sort with
  | null => exact null_gives
  | bool b => exact bool_gives b
  | number => exact number_gives
  | string => exact string_gives
  | list => exact list_gives
  | object => exact object_gives

end Json

namespace Accord

open Reader Json

variable {α β : Type} {A : Accord α β} {n : Nat}

/-- **Values are read in accord** when each sort of value is. -/
theorem Upto.valueBy {null₁ number₁ string₁ list₁ object₁ : Reader α}
    {null₂ number₂ string₂ list₂ object₂ : Reader β} {bool₁ : Bool → Reader α}
    {bool₂ : Bool → Reader β} (null : A.Upto n null₁ null₂)
    (bool : ∀ b, A.Upto n (bool₁ b) (bool₂ b)) (number : A.Upto n number₁ number₂)
    (string : A.Upto n string₁ string₂) (list : A.Upto n list₁ list₂)
    (object : A.Upto n object₁ object₂) :
    A.Upto n (valueBy null₁ bool₁ number₁ string₁ list₁ object₁)
      (valueBy null₂ bool₂ number₂ string₂ list₂ object₂) := by
  rw [valueBy_eq_bind, valueBy_eq_bind]
  apply Upto.after start
  intro sort
  cases sort with
  | null => exact null
  | bool b => exact bool b
  | number => exact number
  | string => exact string
  | list => exact list
  | object => exact object

/-- Behind a character there is less text. -/
theorem Upto.next {p : Reader α} {q : Reader β} (h : A.Upto n p q) :
    A.Upto (n + 1) (do Reader.next; p) (do Reader.next; q) := by
  intro s bound
  apply h s.tail
  rw [List.length_tail]
  omega

end Accord

end ShortForm
