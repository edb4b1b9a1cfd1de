import ShortForm.Proofs.Json.Accord
import ShortForm.Proofs.Json.SpelledString

/-!
# Passing over values

Passing over a value is looser than reading it. What can be read is passed over, up to the same
place. What cannot be read is passed over only where the fault of reading is one of form: a number
is too great, a surrogate stands alone, or brackets are nested too deeply (`pass_upto_read`).

Brackets need the least: a loop over a list is in accord when its items are. Strings need the most,
because the two readers do not keep step: a pair of surrogates is one character to the one and two
units to the other.
-/

namespace ShortForm

open Reader

namespace Accord

variable {α β γ : Type} {n : Nat}

/-- Nothing is lost where the first reads on, and where the second does not the fault is one of
form. -/
def looser (α β : Type) : Accord α β where
  same _ _ := True
  lost _ _ := False
  loose _ fault := fault.kind = .form

/-- A fault of form is in accord with everything. -/
theorem holds_of_form {fault : Fault} (form : fault.kind = .form)
    (x : Except Fault (α × List Char)) : (looser α β).Holds x (.error fault) := by
  cases x with
  | error _ => exact True.intro
  | ok taken => exact form

/-- Where both report faults nothing is asked. -/
theorem holds_of_errors {A : Accord α β} {x : Except Fault (α × List Char)}
    {y : Except Fault (β × List Char)} {fault fault' : Fault} (left : x = .error fault)
    (right : y = .error fault') : A.Holds x y := by
  rw [left, right]
  exact True.intro

/-- What is done with what is taken does not matter. -/
theorem Upto.looser_bind_pure {p : Reader α} {q : Reader β} (h : (looser α β).Upto n p q)
    (f : β → γ) : (looser α γ).Upto n p (q >>= fun b => Pure.pure (f b)) :=
  h.bind_pure (fun _ _ _ => True.intro) (fun _ _ never => never) fun _ _ form => form

/-- Readers that are looser are followed by readers that are. -/
theorem Upto.looser_bind {α' β' : Type} {p : Reader α} {q : Reader β} {f : α → Reader α'}
    {g : β → Reader β'} (first : (looser α β).Upto n p q)
    (more : ∀ a b, (looser α' β').Upto n (f a) (g b)) :
    (looser α' β').Upto n (p >>= f) (q >>= g) :=
  first.bind (fun a b _ => more a b) (fun _ _ never => never.elim)
    fun _ _ form _ _ _ _ => form

/-- Behind a comma the strict reader looks for a closing bracket first, which is a fault of form. A
text that ends there is one for both. -/
theorem Upto.refuseClosing {p : Reader α} {q : Reader β} (h : (looser α β).Upto n p q)
    (skips : ∀ s, p.run s = p.run (s.dropWhile isBlank))
    (needs : ∃ fault, p.run [] = .error fault) (close : Char) :
    (looser α β).Upto n ((Pure.pure () : Reader Unit) >>= fun _ => p)
      (Json.refuseClosing close >>= fun _ => q) := by
  intro s bound
  have shorter := (List.dropWhile_sublist isBlank (l := s)).length_le
  have left : ((Pure.pure () : Reader Unit) >>= fun _ => p).run s = p.run (s.dropWhile isBlank) :=
    skips s
  rw [left, run_bind, Json.refuseClosing]
  simp only [run_bind, run_blanks, run_peek]
  cases rest : s.dropWhile isBlank with
  | nil =>
    obtain ⟨fault, eq⟩ := needs
    exact holds_of_errors eq rfl
  | cons c t =>
    rw [rest] at shorter
    by_cases closes : c = close
    · simp only [List.head?_cons, if_pos closes]
      exact holds_of_form rfl _
    · simp only [List.head?_cons, if_neg closes]
      exact h (c :: t) (by omega)

end Accord

open Accord

/-! ## Numbers -/

namespace Numeral

variable {n : Nat}

/-- The faults for a text that ends are all that the readers of numerals differ in. -/
theorem digits_upto (f g : Fault) : (equal (List Char)).Upto n (digits f) (digits g) := by
  apply Upto.after peek
  intro c
  cases c with
  | none => exact Upto.fail_left (Gives.fail _)
  | some c => exact Upto.refl _

theorem wholeDigits_upto (f g : Fault) :
    (equal (List Char)).Upto n (wholeDigits f) (wholeDigits g) :=
  (digits_upto f g).equal_bind fun _ => Upto.refl _

theorem fractionDigits_upto (f g : Fault) :
    (equal (Option (List Char))).Upto n (fractionDigits f) (fractionDigits g) := by
  apply Upto.after peek
  intro c
  split
  · exact Upto.after next fun _ => (digits_upto f g).equal_bind fun _ => Upto.refl _
  · exact Upto.refl _

theorem exponentDigits_upto (f g : Fault) :
    (equal (Option (Bool × List Char))).Upto n (exponentDigits f) (exponentDigits g) := by
  apply Upto.after peek
  intro c
  split
  · refine Upto.after next fun _ => Upto.after peek fun sign => ?_
    have number : (equal (Option (Bool × List Char))).Upto n
        (digits f >>= fun ds => pure (some (decide (sign = some '-'), ds)))
        (digits g >>= fun ds => pure (some (decide (sign = some '-'), ds))) :=
      (digits_upto f g).equal_bind fun _ => Upto.refl _
    split
    · exact Upto.after next fun _ => number
    · exact number
  · exact Upto.refl _

theorem read_upto (f g : Fault) : (equal Numeral).Upto n (read f) (read g) := by
  apply Upto.after minus
  intro negative
  apply (wholeDigits_upto f g).equal_bind
  intro whole
  apply (fractionDigits_upto f g).equal_bind
  intro fraction
  exact (exponentDigits_upto f g).equal_bind fun exponent => Upto.refl _

/-- All that can be wrong with what is written as a number is that it is too great. -/
theorem value_eq_error {numeral : Numeral} {fault : Fault} (h : numeral.value = .error fault) :
    fault = .numberTooGreat := by
  simp only [value] at h
  split at h
  · split at h
    · cases h
    · split at h <;> cases h
  · split at h
    · cases h
    · cases h
      rfl

end Numeral

/-- A number of any size is passed over. -/
theorem Number.read_looser {n : Nat} (atEnd : Fault) :
    (looser Unit Number).Upto n (do let _ ← Numeral.read atEnd) Number.read := by
  apply (Numeral.read_upto atEnd (.unfinished .value)).equal_bind
  intro numeral
  cases value : numeral.value with
  | ok number => exact Upto.pure True.intro
  | error fault =>
    obtain rfl := Numeral.value_eq_error value
    exact Upto.fail_right fun _ _ _ _ => rfl

/-! ## Strings -/

namespace Json

variable {s : List Char}

/-- How an escaped character goes on behind its first unit. It ends there, or there is a fault of
form, or the text ends within the mark of a second unit, or a second unit is read. -/
inductive SecondUnit (t : List Char) : Except Fault (Char × List Char) → Prop where
  | single (c : Char) : SecondUnit t (.ok (c, t))
  | form {fault : Fault} : fault.kind = .form → SecondUnit t (.error fault)
  | ended (fault : Fault) : t = [] ∨ t = ['\\'] → SecondUnit t (.error fault)
  | broken {u : List Char} {fault : Fault} : t = '\\' :: 'u' :: u → hexUnit.run u = .error fault →
      SecondUnit t (.error fault)
  | pair {u v : List Char} {low : Nat} (c : Char) : t = '\\' :: 'u' :: u →
      hexUnit.run u = .ok (low, v) → SecondUnit t (.ok (c, v))

theorem unicodeEscape_secondUnit {t : List Char} {high : Nat}
    (first : hexUnit.run s = .ok (high, t)) : SecondUnit t (unicodeEscape.run s) := by
  rw [unicodeEscape, run_bind, first]
  simp only
  by_cases low : isLowSurrogate high
  · rw [if_pos low]
    exact .form rfl
  rw [if_neg low]
  by_cases pair : isHighSurrogate high
  · rw [if_pos pair]
    cases t with
    | nil => exact .ended _ (.inl rfl)
    | cons c t =>
      by_cases mark : c = '\\'
      · subst mark
        cases t with
        | nil => exact .ended _ (.inr rfl)
        | cons d u =>
          by_cases letter : d = 'u'
          · subst letter
            have marks : ∀ f : Reader Char,
                (do
                  pairMark '\\'
                  pairMark 'u'
                  f).run ('\\' :: 'u' :: u) = f.run u := by
              intro f
              simp [pairMark]
            rw [marks, run_bind]
            cases second : hexUnit.run u with
            | error fault => exact .broken rfl second
            | ok taken =>
              obtain ⟨low, v⟩ := taken
              simp only
              split
              · exact .pair _ rfl second
              · exact .form rfl
          · have other : (pairMark 'u').run (d :: u) = .error .openSurrogate := by
              simp [pairMark, letter]
            have here : (pairMark '\\').run ('\\' :: d :: u) = .ok ((), d :: u) := by
              simp [pairMark]
            rw [run_bind, here]
            simp only
            rw [run_bind, other]
            exact .form rfl
      · have other : (pairMark '\\').run (c :: t) = .error .openSurrogate := by
          simp [pairMark, mark]
        rw [run_bind, other]
        exact .form rfl
  · rw [if_neg pair]
    exact .single _

/-- An escaped unit is passed over with what follows it, if shorter texts are. -/
theorem insideFrom_unit {passed : List Unit} {taken : List Char}
    (later : ∀ passed taken (t : List Char), t.length ≤ s.length →
      (looser (List Unit) (List Char)).Holds
        ((insideFrom (fun _ => ()) (do let _ ← hexUnit) passed).run t)
        ((insideFrom id unicodeEscape taken).run t)) :
    (looser (List Unit) (List Char)).Holds
      (((do let _ ← hexUnit : Reader Unit) >>= fun a =>
        insideFrom (fun _ => ()) (do let _ ← hexUnit) (a :: passed)).run s)
      ((unicodeEscape >>= fun c => insideFrom id unicodeEscape (c :: taken)).run s) := by
  cases first : hexUnit.run s with
  | error fault =>
    refine @holds_of_errors _ _ _ _ _ fault fault ?_ ?_
    · simp only [run_bind, first]
    · simp only [run_bind, unicodeEscape, first]
  | ok read =>
    obtain ⟨high, t⟩ := read
    have shorter := hexUnit.length_le first
    have passing : (((do let _ ← hexUnit : Reader Unit) >>= fun a =>
        insideFrom (fun _ => ()) (do let _ ← hexUnit) (a :: passed)).run s) =
        (insideFrom (fun _ => ()) (do let _ ← hexUnit) (() :: passed)).run t := by
      simp only [run_bind, first, run_pure]
    have second := unicodeEscape_secondUnit first
    rw [passing, run_bind]
    generalize unicodeEscape.run s = outcome at second ⊢
    cases second with
    | single c => exact later _ _ t shorter
    | form form => exact holds_of_form form _
    | ended fault nearEnd =>
      rcases nearEnd with rfl | rfl
      · exact holds_of_errors insideFrom_nil rfl
      · exact holds_of_errors insideFrom_backslash rfl
    | @broken u fault marks broken =>
      subst marks
      have passing : ((do let _ ← hexUnit : Reader Unit) >>= fun a =>
          insideFrom (fun _ => ()) (do let _ ← hexUnit) (a :: () :: passed)).run u =
          .error fault := by
        simp only [run_bind, broken]
      rw [insideFrom_unicode]
      exact holds_of_errors passing rfl
    | pair c marks read =>
      subst marks
      have shorter' := hexUnit.length_le read
      simp only [List.length_cons] at shorter
      rw [insideFrom_unicode, run_bind, run_bind, read]
      exact later _ _ _ (by omega)

/-- The rest of a string is passed over if it can be read, and otherwise only if the fault is a
surrogate that stands alone. The induction is on the length of the text: what is one round to the
reader may be two rounds here. -/
theorem insideFrom_looser (passed : List Unit) (taken : List Char) (s : List Char) :
    (looser (List Unit) (List Char)).Holds
      ((insideFrom (fun _ => ()) (do let _ ← hexUnit) passed).run s)
      ((insideFrom id unicodeEscape taken).run s) := by
  induction length : s.length using Nat.strongRecOn generalizing passed taken s with
  | ind n ih =>
    have later : ∀ passed taken (t : List Char), t.length < n →
        (looser (List Unit) (List Char)).Holds
          ((insideFrom (fun _ => ()) (do let _ ← hexUnit) passed).run t)
          ((insideFrom id unicodeEscape taken).run t) :=
      fun passed taken t shorter => ih t.length shorter passed taken t rfl
    cases s with
    | nil => exact holds_of_errors insideFrom_nil insideFrom_nil
    | cons c s =>
      rw [List.length_cons] at length
      by_cases quote : c = '"'
      · subst quote
        rw [insideFrom_quote, insideFrom_quote]
        exact ⟨True.intro, rfl⟩
      by_cases backslash : c = '\\'
      · subst backslash
        rw [insideFrom_backslash, insideFrom_backslash]
        cases s with
        | nil => exact holds_of_errors rfl rfl
        | cons d s =>
          rw [List.length_cons] at length
          cases letter : letterEscape? d with
          | some e =>
            rw [run_bind, run_bind, escape_letter letter, escape_letter letter]
            exact later _ _ s (by omega)
          | none =>
            by_cases unit : d = 'u'
            · subst unit
              have unit := @insideFrom_unit s passed taken
                fun passed taken t shorter => later passed taken t (by omega)
              rw [run_bind, run_bind] at unit
              rw [run_bind, run_bind, escape_unicode, escape_unicode]
              exact unit
            · rw [run_bind, run_bind, escape_other letter unit, escape_other letter unit]
              exact True.intro
      by_cases control : c < ' '
      · rw [insideFrom_control quote backslash control, insideFrom_control quote backslash control]
        exact True.intro
      · rw [insideFrom_plain quote backslash control, insideFrom_plain quote backslash control]
        exact later _ _ s (by omega)

theorem passStringRest_looser {n : Nat} :
    (looser Unit String).Upto n passStringRest stringRest := by
  have inside : (looser (List Unit) (List Char)).Upto n
      (inside (fun _ => ()) (do let _ ← hexUnit)) (inside id unicodeEscape) :=
    fun s _ => insideFrom_looser [] [] s
  exact inside.looser_bind fun _ _ => Upto.pure True.intro

/-! ## Values -/

section

variable {n : Nat}

/-- Values without brackets are passed over if they can be read; and brackets as these readers do.
-/
theorem passScalarOr_looser {list₁ object₁ : Reader Unit} {list₂ object₂ : Reader Json}
    (list : (looser Unit Json).Upto n list₁ list₂)
    (object : (looser Unit Json).Upto n object₁ object₂) :
    (looser Unit Json).Upto n (passScalarOr list₁ object₁) (readScalarOr list₂ object₂) :=
  Upto.valueBy (Upto.pure True.intro) (fun _ => Upto.pure True.intro)
    ((Number.read_looser .badNumber).looser_bind_pure number)
    (passStringRest_looser.looser_bind_pure string) list object

/-- Passing over a list is looser than reading one if passing over its items is. -/
theorem listRest_looser {p : Reader Unit} {q : Reader Json} (h : (looser Unit Json).Upto n p q)
    (skips : ∀ s, p.run s = p.run (s.dropWhile isBlank))
    (needs : ∃ fault, p.run [] = .error fault) :
    (looser Unit Json).Upto n (listRest (pure ()) (fun _ => p) ()) (arrayRest q) := by
  have items : ∀ before, (looser Unit (List Json)).Upto n p (item q before) :=
    fun before => h.looser_bind_pure (· :: before)
  have lists : (looser Unit (List Json)).Upto n (listRest (pure ()) (fun _ => p) ())
      (listRest (refuseClosing ']') (item q) []) :=
    Upto.listRest (fun _ before _ => items before)
      (fun _ before _ => (items before).refuseClosing skips needs ']')
      (fun _ _ never => never.elim) (fun _ _ form _ _ _ _ => form) True.intro
  exact lists.looser_bind_pure _

/-- Passing over an object is looser than reading one if passing over its values is. -/
theorem objectRest_looser {p : Reader Unit} {q : Reader Json} (h : (looser Unit Json).Upto n p q) :
    (looser Unit Json).Upto n
      (objectRest (pure ()) passStringRest (fun _ _ => passMember p) ()) (membersRest q) := by
  have members : ∀ before : List (String × Json),
      (looser Unit (List (String × Json))).Upto n
        (memberName passStringRest >>= fun _ => passMember p)
        (memberName stringRest >>= member q before) := by
    intro before
    have names :
        (looser Unit String).Upto n (memberName passStringRest) (memberName stringRest) := by
      refine Upto.after blanks fun _ => Upto.after peek fun c => ?_
      cases c with
      | none => exact Upto.fail_left (Gives.fail _)
      | some c =>
        by_cases quote : c = '"'
        · simp only [if_pos quote]
          exact Upto.after next fun _ => passStringRest_looser
        · simp only [if_neg quote]
          exact Upto.fail_left (Gives.fail _)
    exact names.looser_bind fun _ name =>
      Upto.after colon fun _ => h.looser_bind_pure fun j => (name, j) :: before
  have objects : (looser Unit (List (String × Json))).Upto n
      (objectRest (pure ()) passStringRest (fun _ _ => passMember p) ())
      (objectRest (refuseClosing '\x7d') stringRest (member q) []) :=
    Upto.objectRest (fun _ before _ => members before)
      (fun _ before _ => (members before).refuseClosing (fun s => by simp [memberName])
        ⟨.unfinished .object, by simp [memberName]⟩ '\x7d')
      (fun _ _ _ never => never.elim) (fun _ _ _ form _ _ _ _ => form) True.intro
  exact objects.looser_bind_pure _

theorem passWithin_blanks (room : Nat) (s : List Char) :
    (passWithin room).run s = (passWithin room).run (s.dropWhile isBlank) := by
  obtain ⟨list, object, eq⟩ := passWithin_eq_passScalarOr room
  rw [eq]
  exact valueBy_blanks _ _ _ _ _ _ s

theorem passWithin_nil (room : Nat) :
    (passWithin room).run [] = .error (.unfinished .value) := by
  obtain ⟨list, object, eq⟩ := passWithin_eq_passScalarOr room
  rw [eq]
  exact valueBy_nil _ _ _ _ _ _

theorem read_nil (room : Nat) : (read room).run [] = .error (.unfinished .value) := by
  obtain ⟨list, object, eq⟩ := read_eq_readScalarOr room
  rw [eq]
  exact valueBy_nil _ _ _ _ _ _

/-- The induction is on the room of the strict reader; the loose one has room for every bracket of
the text, so it is only the strict one that runs out of it. -/
theorem passWithin_looser (room : Nat) {length : Nat} (fits : n ≤ length) :
    (looser Unit Json).Upto n (passWithin length) (read room) := by
  have deep : ∀ p : Reader Unit, (looser Unit Json).Upto n p (fail .tooDeep) :=
    fun p => Upto.fail_right fun _ _ _ _ => rfl
  induction room generalizing n length with
  | zero =>
    cases length with
    | zero => exact passScalarOr_looser (deep _) (deep _)
    | succ length => exact passScalarOr_looser (deep _) (deep _)
  | succ room ih =>
    cases n with
    | zero =>
      intro s bound
      obtain rfl : s = [] := List.length_eq_zero_iff.mp (Nat.le_zero.mp bound)
      exact holds_of_errors (passWithin_nil length) (read_nil (room + 1))
    | succ n =>
      obtain ⟨length, rfl⟩ : ∃ k, length = k + 1 := ⟨length - 1, by omega⟩
      have inner := ih (Nat.le_of_succ_le_succ fits) fun p => Upto.fail_right fun _ _ _ _ => rfl
      exact passScalarOr_looser
        (listRest_looser inner (passWithin_blanks length) ⟨_, passWithin_nil length⟩).next
        (objectRest_looser inner).next

/-- **Passing over a value is looser than reading it**, however much room there is for reading. -/
theorem pass_upto_read (room : Nat) : (looser Unit Json).Upto n pass (read room) :=
  fun s _ => passWithin_looser room (Nat.le_refl s.length) s (Nat.le_refl _)

end

end Json

end ShortForm
