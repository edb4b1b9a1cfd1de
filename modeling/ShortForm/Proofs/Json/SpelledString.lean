import ShortForm.Proofs.Json.Listed
import ShortForm.Json.Escaped
import ShortForm.Json.Write

/-!
# Strings as they are spelled

The grammar of strings, apart from the reader. Inside a string a character stands for itself, or is
escaped by a letter or by its number; above sixteen bits its number is written as a pair of
surrogates. The reader follows the grammar in both directions: what spells a string is read as that
string (`StringText.read`), and what is read as a string spells it (`stringRest_takes`).

The reader is a loop, so the laws are first ones of what is left of a string when some of it has
been taken (`insideFrom`).
-/

namespace ShortForm.Json

open Reader

/-! ## The loop -/

section

variable {α : Type} {plain : Char → α} {unicode : Reader α} {taken : List α} {s : List Char}

/-- The rest of a string when this much of it has been taken. -/
def insideFrom (plain : Char → α) (unicode : Reader α) (taken : List α) : Reader (List α) :=
  loop (insideStep plain unicode) (.unfinished .string) taken

theorem insideFrom_nil :
    (insideFrom plain unicode taken).run [] = .error (.unfinished .string) :=
  run_loop_nil _ _ _

theorem insideFrom_quote :
    (insideFrom plain unicode taken).run ('"' :: s) = .ok (taken.reverse, s) := by
  simp [insideFrom, insideStep]

theorem insideFrom_backslash :
    (insideFrom plain unicode taken).run ('\\' :: s) =
      (escape plain unicode >>= fun a => insideFrom plain unicode (a :: taken)).run s := by
  have step : insideStep plain unicode taken '\\' =
      escape plain unicode >>= fun a => pure (.inr (a :: taken)) := by
    simp [insideStep]
  rw [insideFrom, run_loop_eq_bind, step, bind_bind]
  rfl

theorem insideFrom_control {c : Char} (quote : c ≠ '"') (backslash : c ≠ '\\') (control : c < ' ') :
    (insideFrom plain unicode taken).run (c :: s) = .error .controlCharacter := by
  simp [insideFrom, insideStep, quote, backslash, control]

theorem insideFrom_plain {c : Char} (quote : c ≠ '"') (backslash : c ≠ '\\') (above : ¬ c < ' ') :
    (insideFrom plain unicode taken).run (c :: s) =
      (insideFrom plain unicode (plain c :: taken)).run s := by
  rw [insideFrom, run_loop_eq_bind, insideStep, if_neg quote, if_neg backslash, if_neg above]
  rfl

theorem escape_letter {c d : Char} (letter : letterEscape? c = some d) :
    (escape plain unicode).run (c :: s) = .ok (plain d, s) := by
  simp [escape, letter]

theorem escape_unicode : (escape plain unicode).run ('u' :: s) = unicode.run s := by
  simp [escape, letterEscape?]

theorem escape_other {c : Char} (letter : letterEscape? c = none) (other : c ≠ 'u') :
    (escape plain unicode).run (c :: s) = .error .badEscape := by
  simp [escape, letter, other]

/-- The rest of an escaped unit, and of the string behind it. -/
theorem insideFrom_unicode :
    (insideFrom plain unicode taken).run ('\\' :: 'u' :: s) =
      (unicode >>= fun a => insideFrom plain unicode (a :: taken)).run s := by
  rw [insideFrom_backslash, run_bind, escape_unicode]
  rfl

end

/-! ## The grammar -/

/-- Four hexadecimal digits of a number. -/
def HexUnit (n : Nat) (t : List Char) : Prop := hexFront? t = some (n, [])

/-- The text behind `u` that stands for a character: one unit, or a pair of surrogates. -/
inductive SpellsUnit : Char → List Char → Prop where
  | single {n : Nat} {t : List Char} : HexUnit n t → isLowSurrogate n = false →
      isHighSurrogate n = false → SpellsUnit (.ofNat n) t
  | pair {high low : Nat} {t u : List Char} : HexUnit high t → HexUnit low u →
      isLowSurrogate high = false → isHighSurrogate high → isLowSurrogate low →
      SpellsUnit (.ofNat (0x10000 + (high - 0xD800) * 0x400 + (low - 0xDC00)))
        (t ++ '\\' :: 'u' :: u)

/-- The text that stands for a character inside a string. -/
inductive SpellsChar : Char → List Char → Prop where
  | plain {c : Char} : c ≠ '"' → c ≠ '\\' → ¬ c < ' ' → SpellsChar c [c]
  | letter {letter c : Char} : letterEscape? letter = some c → SpellsChar c ['\\', letter]
  | unicode {c : Char} {t : List Char} : SpellsUnit c t → SpellsChar c ('\\' :: 'u' :: t)

/-- The text that stands for characters inside a string. -/
inductive SpellsInside : List Char → List Char → Prop where
  | nil : SpellsInside [] []
  | cons {c : Char} {cs t more : List Char} : SpellsChar c t → SpellsInside cs more →
      SpellsInside (c :: cs) (t ++ more)

/-- The text of a string, between its quotes. -/
inductive StringText (s : String) : List Char → Prop where
  | mk {t : List Char} : SpellsInside s.toList t → StringText s ('"' :: (t ++ ['"']))

/-! ## Reading what is spelled -/

theorem HexUnit.hexFront? {n : Nat} {t : List Char} (unit : HexUnit n t) (rest : List Char) :
    hexFront? (t ++ rest) = some (n, rest) := by
  unfold HexUnit Json.hexFront? at unit
  split at unit
  · rename_i a b c d more
    split at unit
    · obtain ⟨rfl, rfl⟩ := Prod.mk.inj (Option.some.inj unit)
      simp only [List.cons_append, List.nil_append, Json.hexFront?, *]
    · cases unit
  · cases unit

theorem HexUnit.read {n : Nat} {t : List Char} (unit : HexUnit n t) (rest : List Char) :
    hexUnit.run (t ++ rest) = .ok (n, rest) := by
  simp only [hexUnit, unit.hexFront? rest]

theorem SpellsUnit.read {c : Char} {t : List Char} (spells : SpellsUnit c t) (rest : List Char) :
    unicodeEscape.run (t ++ rest) = .ok (c, rest) := by
  cases spells with
  | single unit low high =>
    rw [unicodeEscape, run_bind, unit.read]
    simp [low, high]
  | pair first second notLow high low =>
    rw [List.append_assoc, unicodeEscape, run_bind, first.read]
    simp [notLow, high, pairMark, second.read, low]

/-- What stands for a character is taken as that character. -/
theorem SpellsChar.insideFrom {c : Char} {t : List Char} (spells : SpellsChar c t)
    (taken rest : List Char) :
    (insideFrom id unicodeEscape taken).run (t ++ rest) =
      (insideFrom id unicodeEscape (c :: taken)).run rest := by
  cases spells with
  | plain quote backslash above => exact insideFrom_plain quote backslash above
  | letter letter =>
    rw [List.cons_append, insideFrom_backslash, run_bind, List.cons_append, escape_letter letter]
    rfl
  | unicode unit =>
    simp only [List.cons_append]
    rw [insideFrom_unicode, run_bind, unit.read]

theorem SpellsInside.insideFrom {cs t : List Char} (spells : SpellsInside cs t)
    (taken rest : List Char) :
    (insideFrom id unicodeEscape taken).run (t ++ '"' :: rest) =
      .ok (taken.reverse ++ cs, rest) := by
  induction spells generalizing taken with
  | nil =>
    rw [List.append_nil]
    exact insideFrom_quote
  | cons here _ ih =>
    rw [List.append_assoc, here.insideFrom, ih, List.reverse_cons, List.append_assoc]
    rfl

/-- **What spells a string is read as that string.** The reader begins behind the opening quote. -/
theorem SpellsInside.read {s : String} {t : List Char} (spells : SpellsInside s.toList t)
    (rest : List Char) : stringRest.run (t ++ '"' :: rest) = .ok (s, rest) := by
  have inside : (inside id unicodeEscape).run (t ++ '"' :: rest) = .ok (s.toList, rest) :=
    spells.insideFrom [] rest
  rw [stringRest, run_bind, inside]
  simp

/-! ## What is read -/

theorem hexUnit_takes : hexUnit.Takes HexUnit := by
  intro s n rest run
  simp only [hexUnit] at run
  split at run
  · rename_i read found
    cases run
    unfold hexFront? at found
    split at found
    · rename_i a b c d more
      split at found
      · obtain ⟨rfl, rfl⟩ := Prod.mk.inj (Option.some.inj found)
        exact ⟨[a, b, c, d], rfl, by simp only [HexUnit, hexFront?, *]⟩
      · cases found
    · cases found
  · cases run

theorem pairMark_takes (c : Char) : (pairMark c).Takes fun _ t => t = [c] := by
  intro s _ rest run
  cases s with
  | nil => cases run
  | cons d s =>
    by_cases mark : d = c
    · subst mark
      simp only [pairMark, run_bind, run_peek, List.head?_cons, if_true, run_next] at run
      cases run
      exact ⟨[d], rfl, rfl⟩
    · simp [pairMark, mark] at run

theorem unicodeEscape_takes : unicodeEscape.Takes SpellsUnit := by
  refine hexUnit_takes.bind fun high t unit => ?_
  split
  · exact Takes.fail _
  rename_i notLow
  split
  · rename_i pair
    refine (pairMark_takes '\\').bind ?_
    rintro _ _ rfl
    refine (pairMark_takes 'u').bind ?_
    rintro _ _ rfl
    refine hexUnit_takes.bind fun low u unit' => ?_
    split
    · rename_i isLow
      apply Takes.pure
      rw [List.append_nil]
      exact .pair unit unit' (Bool.eq_false_iff.mpr notLow) pair isLow
    · exact Takes.fail _
  · rename_i single
    apply Takes.pure
    rw [List.append_nil]
    exact .single unit (Bool.eq_false_iff.mpr notLow) (Bool.eq_false_iff.mpr single)

theorem escape_takes : (escape id unicodeEscape).Takes fun c t => SpellsChar c ('\\' :: t) := by
  intro s c rest run
  cases s with
  | nil => cases run
  | cons d s =>
    cases letter : letterEscape? d with
    | some e =>
      rw [escape_letter letter] at run
      cases run
      exact ⟨[d], rfl, .letter letter⟩
    | none =>
      by_cases unit : d = 'u'
      · subst unit
        rw [escape_unicode] at run
        obtain ⟨t, rfl, spells⟩ := unicodeEscape_takes run
        exact ⟨'u' :: t, rfl, .unicode spells⟩
      · rw [escape_other letter unit] at run
        cases run

/-- The text up to the closing quote spells what is taken behind what was taken before. -/
def TakesOn (taken cs t : List Char) : Prop :=
  ∃ more u, cs = taken.reverse ++ more ∧ t = u ++ ['"'] ∧ SpellsInside more u

theorem TakesOn.cons {taken cs t u : List Char} {c : Char} (here : SpellsChar c t)
    (later : TakesOn (c :: taken) cs u) : TakesOn taken cs (t ++ u) := by
  obtain ⟨more, v, rfl, rfl, spells⟩ := later
  exact ⟨c :: more, t ++ v, by simp, (List.append_assoc t v _).symm, .cons here spells⟩

theorem insideFrom_takes (taken : List Char) :
    (insideFrom id unicodeEscape taken).Takes (TakesOn taken) := by
  refine Takes.loop (fun taken c => ?_) taken
  unfold insideStep
  split
  · rename_i quote
    subst quote
    exact Takes.pure ⟨[], [], (List.append_nil _).symm, rfl, .nil⟩
  split
  · rename_i backslash
    subst backslash
    refine escape_takes.bind fun d t here => Takes.pure fun cs u later => ?_
    rw [List.append_nil, ← List.cons_append]
    exact later.cons here
  split
  · exact Takes.fail _
  · rename_i quote backslash above
    exact Takes.pure fun cs u later => later.cons (.plain quote backslash above)

/-- **What is read as a string spells it**, with the closing quote. -/
theorem stringRest_takes :
    stringRest.Takes fun s t => ∃ u, t = u ++ ['"'] ∧ SpellsInside s.toList u := by
  refine (insideFrom_takes []).bind ?_
  rintro cs _ ⟨more, u, rfl, rfl, spells⟩
  apply Takes.pure
  rw [List.append_nil]
  exact ⟨u, rfl, by rwa [String.toList_ofList]⟩

/-! ## What is written -/

/-- The digits of a number below sixteen are read as it. -/
theorem hexDigit?_digitChar : ∀ d < 16, hexDigit? (Nat.digitChar d) = some d := by
  decide

/-- A control character is written by its number. -/
theorem spellsUnit_control {c : Char} (control : c < ' ') :
    SpellsUnit c ['0', '0', Nat.digitChar (c.toNat / 16), Nat.digitChar (c.toNat % 16)] := by
  have small : c.toNat < 32 := control
  have zero : hexDigit? '0' = some 0 := by decide
  have high := hexDigit?_digitChar (c.toNat / 16) (by omega)
  have low := hexDigit?_digitChar (c.toNat % 16) (by omega)
  have value : ((0 * 16 + 0) * 16 + c.toNat / 16) * 16 + c.toNat % 16 = c.toNat := by omega
  have unit : HexUnit c.toNat
      ['0', '0', Nat.digitChar (c.toNat / 16), Nat.digitChar (c.toNat % 16)] := by
    simp only [HexUnit, hexFront?, zero, high, low, value]
  have spells := SpellsUnit.single unit (by simp [isLowSurrogate]; omega)
    (by simp [isHighSurrogate]; omega)
  rwa [Char.ofNat_toNat] at spells

/-- What is written for a character stands for it. -/
theorem spellsChar_writeChar (c : Char) : SpellsChar c (writeChar c) := by
  unfold writeChar
  split
  · rename_i same
    subst same
    exact .letter rfl
  split
  · rename_i same
    subst same
    exact .letter rfl
  split
  · rename_i same
    subst same
    exact .letter rfl
  split
  · rename_i same
    subst same
    exact .letter rfl
  split
  · rename_i same
    subst same
    exact .letter rfl
  split
  · rename_i same
    subst same
    exact .letter rfl
  split
  · rename_i same
    subst same
    exact .letter rfl
  split
  · rename_i control
    exact .unicode (spellsUnit_control control)
  · rename_i quote backslash _ _ _ _ _ above
    exact .plain quote backslash above

theorem spellsInside_writeChars (cs : List Char) : SpellsInside cs (cs.flatMap writeChar) := by
  induction cs with
  | nil => exact .nil
  | cons c cs ih => exact .cons (spellsChar_writeChar c) ih

/-- What is written for a string is a text of it. -/
theorem stringText_writeString (s : String) : StringText s (writeString s) :=
  .mk (spellsInside_writeChars s.toList)

/-- A string that is written reads back. The reader begins behind the opening quote. -/
theorem stringRest_run (s : String) (rest : List Char) :
    stringRest.run (s.toList.flatMap writeChar ++ '"' :: rest) = .ok (s, rest) :=
  (spellsInside_writeChars s.toList).read rest

/-- A string is written behind a quote. -/
theorem writeString_append (s : String) (rest : List Char) :
    writeString s ++ rest = '"' :: (s.toList.flatMap writeChar ++ '"' :: rest) := by
  simp [writeString]

end ShortForm.Json
