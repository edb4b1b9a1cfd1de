import ShortForm.Proofs.Json.Listed

/-!
# Numerals as they are spelled

The grammar of numerals, apart from the reader: an optional minus sign, digits of which a zero
stands alone, and maybe a fraction and an exponent behind them. The reader follows it in both
directions. A text that spells a numeral is read as that numeral wherever it ends
(`Numeral.SpelledBy.read`), and what is read as a numeral spells it (`Numeral.read_takes`).

So a text is a text of one numeral only, and of one number (`Numeral.SpelledBy.unique`). Whole
numbers of a word read back from their texts (`Number.read_write_int`). Doubles need not, because
the reader does not round to the nearest double.
-/

namespace ShortForm

open Reader

namespace Numeral

/-! ## The grammar -/

/-- One digit or more. -/
def IsDigits (ds : List Char) : Prop := ds ≠ [] ∧ ∀ c ∈ ds, c.isDigit

/-- Digits that can stand in front of the point: a zero stands alone. -/
def IsWhole (ds : List Char) : Prop := IsDigits ds ∧ (ds.head? = some '0' → ds.length = 1)

/-- The text of a fraction, with its point. -/
inductive SpellsFraction : Option (List Char) → List Char → Prop where
  | absent : SpellsFraction none []
  | digits {ds : List Char} : IsDigits ds → SpellsFraction (some ds) ('.' :: ds)

/-- The text of an exponent, with its letter. -/
inductive SpellsExponent : Option (Bool × List Char) → List Char → Prop where
  | absent : SpellsExponent none []
  | unsigned {letter : Char} {ds : List Char} : letter = 'e' ∨ letter = 'E' → IsDigits ds →
      SpellsExponent (some (false, ds)) (letter :: ds)
  | plus {letter : Char} {ds : List Char} : letter = 'e' ∨ letter = 'E' → IsDigits ds →
      SpellsExponent (some (false, ds)) (letter :: '+' :: ds)
  | minus {letter : Char} {ds : List Char} : letter = 'e' ∨ letter = 'E' → IsDigits ds →
      SpellsExponent (some (true, ds)) (letter :: '-' :: ds)

/-- The text spells the numeral. -/
inductive SpelledBy : Numeral → List Char → Prop where
  | mk (negative : Bool) {whole fractionText exponentText : List Char}
      {fraction : Option (List Char)} {exponent : Option (Bool × List Char)} : IsWhole whole →
      SpellsFraction fraction fractionText → SpellsExponent exponent exponentText →
      SpelledBy ⟨negative, whole, fraction, exponent⟩
        ((if negative then ['-'] else []) ++ (whole ++ (fractionText ++ exponentText)))

/-! ## Reading what is spelled -/

theorem IsDigits.cons {ds : List Char} (digits : IsDigits ds) :
    ∃ c t, ds = c :: t ∧ c.isDigit := by
  obtain ⟨c, t, rfl⟩ := List.exists_cons_of_ne_nil digits.1
  exact ⟨c, t, rfl, digits.2 c List.mem_cons_self⟩

/-- What is no digit is another character than a digit. -/
theorem ne_of_isDigit {c d : Char} (digit : c.isDigit) (other : d.isDigit = false) : c ≠ d := by
  rintro rfl
  simp [other] at digit

/-- Digits are read up to what is no digit. -/
theorem IsDigits.read {ds rest : List Char} (isDigits : IsDigits ds)
    (ended : ∀ c ∈ rest.head?, ¬ c.isDigit) (atEnd : Fault) :
    (digits atEnd).run (ds ++ rest) = .ok (ds, rest) := by
  have drops : rest.dropWhile Char.isDigit = rest ∧ rest.takeWhile Char.isDigit = [] := by
    cases rest with
    | nil => exact ⟨rfl, rfl⟩
    | cons c rest =>
      have stop : ¬ c.isDigit := ended c rfl
      exact ⟨List.dropWhile_cons_of_neg stop, List.takeWhile_cons_of_neg stop⟩
  have whole : (Reader.takeWhile Char.isDigit).run (ds ++ rest) = .ok (ds, rest) := by
    rw [run_takeWhile, List.takeWhile_append_of_pos isDigits.2,
      List.dropWhile_append_of_pos isDigits.2, drops.1, drops.2, List.append_nil]
  obtain ⟨c, t, rfl, digit⟩ := isDigits.cons
  rw [digits, run_bind, run_peek]
  simp only [List.cons_append, List.head?_cons, digit, if_true]
  exact whole

theorem IsWhole.read {ds rest : List Char} (isWhole : IsWhole ds)
    (ended : ∀ c ∈ rest.head?, ¬ c.isDigit) (atEnd : Fault) :
    (wholeDigits atEnd).run (ds ++ rest) = .ok (ds, rest) := by
  have alone : ¬ (ds.head? = some '0' ∧ ds.length ≠ 1) := fun zero => zero.2 (isWhole.2 zero.1)
  rw [wholeDigits, run_bind, isWhole.1.read ended]
  simp only [if_neg alone]
  rfl

theorem SpellsExponent.read {exponent : Option (Bool × List Char)} {t rest : List Char}
    (spells : SpellsExponent exponent t) (ends : Ends rest) (atEnd : Fault) :
    (exponentDigits atEnd).run (t ++ rest) = .ok (exponent, rest) := by
  have number : ∀ {ds}, IsDigits ds → (digits atEnd).run (ds ++ rest) = .ok (ds, rest) :=
    fun isDigits => isDigits.read ends.not_isDigit atEnd
  cases spells with
  | absent =>
    simp [exponentDigits, ends.head?_ne (show isPart 'e' by decide),
      ends.head?_ne (show isPart 'E' by decide)]
  | @unsigned letter ds isLetter isDigits =>
    have reads := number isDigits
    obtain ⟨c, t, rfl, digit⟩ := isDigits.cons
    have minus := @ne_of_isDigit _ '-' digit (by decide)
    have plus := @ne_of_isDigit _ '+' digit (by decide)
    rw [List.cons_append] at reads
    simp [exponentDigits, isLetter, minus, plus, reads]
  | plus isLetter isDigits => simp [exponentDigits, isLetter, number isDigits]
  | minus isLetter isDigits => simp [exponentDigits, isLetter, number isDigits]

/-- What follows the fraction ends its digits. -/
theorem SpellsExponent.not_isDigit {exponent : Option (Bool × List Char)} {t rest : List Char}
    (spells : SpellsExponent exponent t) (ends : Ends rest) :
    ∀ c ∈ (t ++ rest).head?, ¬ c.isDigit ∧ c ≠ '.' := by
  have letters : ∀ {letter : Char}, letter = 'e' ∨ letter = 'E' →
      ¬ letter.isDigit ∧ letter ≠ '.' := by
    rintro letter (rfl | rfl) <;> decide
  cases spells with
  | absent =>
    intro c mem
    refine ⟨ends.not_isDigit c mem, ?_⟩
    rintro rfl
    exact ends.head?_ne (show isPart '.' by decide) mem
  | unsigned isLetter _ | plus isLetter _ | minus isLetter _ =>
    intro c mem
    obtain rfl := Option.some.inj mem
    exact letters isLetter

theorem SpellsFraction.read {fraction : Option (List Char)} {t rest : List Char}
    (spells : SpellsFraction fraction t) (ended : ∀ c ∈ rest.head?, ¬ c.isDigit ∧ c ≠ '.')
    (atEnd : Fault) : (fractionDigits atEnd).run (t ++ rest) = .ok (fraction, rest) := by
  cases spells with
  | absent =>
    have point : rest.head? ≠ some '.' := fun mem => (ended '.' mem).2 rfl
    simp [fractionDigits, point]
  | @digits ds isDigits =>
    have reads := isDigits.read (fun c mem => (ended c mem).1) atEnd
    have opens : (fractionDigits atEnd).run ('.' :: (ds ++ rest)) =
        (Numeral.digits atEnd >>= fun ds => pure (some ds)).run (ds ++ rest) := by
      simp only [fractionDigits, run_bind, run_peek, List.head?_cons, if_true, run_next]
      rfl
    rw [List.cons_append, opens, run_bind, reads]
    rfl

/-- What follows the whole part ends its digits. -/
theorem SpellsFraction.not_isDigit {fraction : Option (List Char)} {t rest : List Char}
    (spells : SpellsFraction fraction t) (ended : ∀ c ∈ rest.head?, ¬ c.isDigit) :
    ∀ c ∈ (t ++ rest).head?, ¬ c.isDigit := by
  cases spells with
  | absent => exact ended
  | digits _ =>
    intro c mem
    obtain rfl := Option.some.inj mem
    decide

theorem minus_run {c : Char} {s : List Char} (digit : c.isDigit) (negative : Bool) :
    minus.run ((if negative then ['-'] else []) ++ c :: s) = .ok (negative, c :: s) := by
  have sign := @ne_of_isDigit _ '-' digit (by decide)
  cases negative with
  | true => simp [minus]
  | false => simp [minus, sign]

/-- **What spells a numeral is read as that numeral**, in front of any text that cannot go on it. -/
theorem SpelledBy.read {n : Numeral} {t rest : List Char} (spelled : n.SpelledBy t)
    (ends : Ends rest) (atEnd : Fault) : (Numeral.read atEnd).run (t ++ rest) = .ok (n, rest) := by
  obtain @⟨negative, whole, fractionText, exponentText, fraction, exponent, isWhole, spellsFraction,
    spellsExponent⟩ := spelled
  have behindFraction := spellsExponent.not_isDigit ends
  have behindWhole := spellsFraction.not_isDigit fun c mem => (behindFraction c mem).1
  have whole_run := isWhole.read behindWhole atEnd
  have sign_run : minus.run ((if negative then ['-'] else []) ++
      (whole ++ (fractionText ++ (exponentText ++ rest)))) =
        .ok (negative, whole ++ (fractionText ++ (exponentText ++ rest))) := by
    obtain ⟨c, t, rfl, digit⟩ := isWhole.1.cons
    exact minus_run digit negative
  simp only [List.append_assoc, Numeral.read, run_bind, sign_run, whole_run,
    spellsFraction.read behindFraction, spellsExponent.read ends]
  rfl

/-- A text spells one numeral only. -/
theorem SpelledBy.unique {n m : Numeral} {t : List Char} (spelled : n.SpelledBy t)
    (spelled' : m.SpelledBy t) : n = m := by
  have reads := spelled.read ends_nil .badNumber
  rw [spelled'.read ends_nil .badNumber] at reads
  exact (congrArg Prod.fst (Except.ok.inj reads)).symm

/-- A numeral begins with a minus sign or a digit. -/
theorem SpelledBy.start {n : Numeral} {t : List Char} (spelled : n.SpelledBy t) :
    ∃ c u, t = c :: u ∧ (c = '-' ∨ c.isDigit) := by
  obtain ⟨negative, isWhole, _, _⟩ := spelled
  obtain ⟨c, u, rfl, digit⟩ := isWhole.1.cons
  cases negative with
  | true => exact ⟨'-', _, rfl, .inl rfl⟩
  | false => exact ⟨c, _, rfl, .inr digit⟩

/-- A numeral is spelled with characters of numerals. -/
theorem SpelledBy.isPart {n : Numeral} {t : List Char} (spelled : n.SpelledBy t) :
    ∀ c ∈ t, isPart c := by
  have digits : ∀ {ds : List Char}, IsDigits ds → ∀ c ∈ ds, Numeral.isPart c :=
    fun isDigits c mem => isPart_of_isDigit (isDigits.2 c mem)
  have exponent : ∀ {letter : Char} {sign ds : List Char}, letter = 'e' ∨ letter = 'E' →
      (∀ c ∈ sign, Numeral.isPart c) → IsDigits ds →
      ∀ c ∈ letter :: (sign ++ ds), Numeral.isPart c := by
    intro letter sign ds isLetter signPart isDigits c mem
    rcases List.mem_cons.mp mem with rfl | mem
    · rcases isLetter with rfl | rfl <;> decide
    · exact (List.mem_append.mp mem).elim (signPart c) (digits isDigits c)
  obtain ⟨negative, isWhole, spellsFraction, spellsExponent⟩ := spelled
  intro c mem
  simp only [List.mem_append] at mem
  rcases mem with sign | whole | fraction | more
  · split at sign
    · rw [List.mem_singleton.mp sign]
      decide
    · cases sign
  · exact digits isWhole.1 c whole
  · cases spellsFraction with
    | absent => cases fraction
    | digits isDigits =>
      rcases List.mem_cons.mp fraction with rfl | mem
      · decide
      · exact digits isDigits c mem
  · cases spellsExponent with
    | absent => cases more
    | unsigned isLetter isDigits =>
      exact @exponent _ [] _ isLetter (by simp) isDigits c more
    | plus isLetter isDigits =>
      exact @exponent _ ['+'] _ isLetter (List.forall_mem_singleton.mpr rfl) isDigits c more
    | minus isLetter isDigits =>
      exact @exponent _ ['-'] _ isLetter (List.forall_mem_singleton.mpr rfl) isDigits c more

/-! ## What is read -/

theorem digits_takes (atEnd : Fault) : (digits atEnd).Takes fun ds t => t = ds ∧ IsDigits ds := by
  intro s ds rest run
  obtain ⟨c, middle, peeked, run⟩ := run_bind_eq_ok.mp run
  cases peeked
  cases s with
  | nil => cases run
  | cons c s =>
    by_cases digit : c.isDigit
    · simp only [List.head?_cons, digit, if_true] at run
      cases run
      refine ⟨_, List.takeWhile_append_dropWhile.symm, rfl, ?_, fun d mem => ?_⟩
      · simp [digit]
      · exact List.all_eq_true.mp List.all_takeWhile d mem
    · simp [digit] at run

theorem wholeDigits_takes (atEnd : Fault) :
    (wholeDigits atEnd).Takes fun ds t => t = ds ∧ IsWhole ds := by
  refine (digits_takes atEnd).bind ?_
  rintro ds _ ⟨rfl, isDigits⟩
  split
  · exact Takes.fail _
  · rename_i alone
    refine Takes.pure ⟨List.append_nil _, isDigits, fun zero => ?_⟩
    exact Decidable.byContradiction fun other => alone ⟨zero, other⟩

theorem minus_takes : minus.Takes fun negative t => t = if negative then ['-'] else [] := by
  intro s negative rest run
  by_cases sign : s.head? = some '-'
  · obtain ⟨t, rfl⟩ := List.head?_eq_some_iff.mp sign
    cases run
    exact ⟨['-'], rfl, rfl⟩
  · simp only [minus, run_bind, run_peek, if_neg sign, run_pure, Except.ok.injEq,
      Prod.mk.injEq] at run
    obtain ⟨rfl, rfl⟩ := run
    exact ⟨[], rfl, rfl⟩

theorem fractionDigits_takes (atEnd : Fault) : (fractionDigits atEnd).Takes SpellsFraction := by
  intro s fraction rest run
  by_cases point : s.head? = some '.'
  · obtain ⟨t, rfl⟩ := List.head?_eq_some_iff.mp point
    have opens : (fractionDigits atEnd).run ('.' :: t) =
        (digits atEnd >>= fun ds => pure (some ds)).run t := by
      simp only [fractionDigits, run_bind, run_peek, List.head?_cons, if_true, run_next]
      rfl
    rw [opens] at run
    obtain ⟨ds, middle, run, last⟩ := run_bind_eq_ok.mp run
    cases last
    obtain ⟨_, rfl, rfl, isDigits⟩ := digits_takes atEnd run
    exact ⟨_, rfl, .digits isDigits⟩
  · simp only [fractionDigits, run_bind, run_peek, if_neg point, run_pure, Except.ok.injEq,
      Prod.mk.injEq] at run
    obtain ⟨rfl, rfl⟩ := run
    exact ⟨[], rfl, .absent⟩

theorem exponentDigits_takes (atEnd : Fault) : (exponentDigits atEnd).Takes SpellsExponent := by
  have number : ∀ negative : Bool,
      (do
        let ds ← digits atEnd
        pure (some (negative, ds)) : Reader (Option (Bool × List Char))).Takes
        fun exponent t => ∃ ds, exponent = some (negative, ds) ∧ t = ds ∧ IsDigits ds := by
    intro negative
    refine (digits_takes atEnd).bind ?_
    rintro ds _ ⟨rfl, isDigits⟩
    exact Takes.pure ⟨_, rfl, List.append_nil _, isDigits⟩
  intro s exponent rest run
  by_cases head : s.head? = some 'e' ∨ s.head? = some 'E'
  · obtain ⟨letter, s, rfl, isLetter⟩ : ∃ c t, s = c :: t ∧ (c = 'e' ∨ c = 'E') := by
      cases s with
      | nil => simp at head
      | cons c t => exact ⟨c, t, rfl, by simpa using head⟩
    simp only [exponentDigits, run_bind, run_peek, if_pos head, run_next, List.tail_cons] at run
    by_cases signed : s.head? = some '-' ∨ s.head? = some '+'
    · obtain ⟨sign, s, rfl, isSign⟩ : ∃ c t, s = c :: t ∧ (c = '-' ∨ c = '+') := by
        cases s with
        | nil => simp at signed
        | cons c t => exact ⟨c, t, rfl, by simpa using signed⟩
      rw [if_pos signed, run_bind, run_next] at run
      obtain ⟨_, rfl, ds, rfl, rfl, isDigits⟩ := number _ run
      rcases isSign with rfl | rfl
      · exact ⟨_, rfl, .minus isLetter isDigits⟩
      · exact ⟨_, rfl, .plus isLetter isDigits⟩
    · rw [if_neg signed] at run
      rw [not_or] at signed
      obtain ⟨_, rfl, ds, rfl, rfl, isDigits⟩ := number _ run
      simp only [signed.1, decide_false]
      exact ⟨_, rfl, .unsigned isLetter isDigits⟩
  · simp only [exponentDigits, run_bind, run_peek, if_neg head, run_pure, Except.ok.injEq,
      Prod.mk.injEq] at run
    obtain ⟨rfl, rfl⟩ := run
    exact ⟨[], rfl, .absent⟩

/-- **What is read as a numeral spells it.** -/
theorem read_takes (atEnd : Fault) : (Numeral.read atEnd).Takes SpelledBy := by
  refine minus_takes.bind ?_
  rintro negative _ rfl
  refine (wholeDigits_takes atEnd).bind ?_
  rintro whole _ ⟨rfl, isWhole⟩
  refine (fractionDigits_takes atEnd).bind fun fraction fractionText spellsFraction => ?_
  refine (exponentDigits_takes atEnd).bind fun exponent exponentText spellsExponent => ?_
  apply Takes.pure
  rw [List.append_nil]
  exact .mk negative isWhole spellsFraction spellsExponent

end Numeral

/-! ## Numbers -/

/-- The text spells a numeral of the number. -/
def Number.SpelledBy (n : Number) (t : List Char) : Prop :=
  ∃ numeral : Numeral, numeral.SpelledBy t ∧ numeral.value = .ok n

namespace Number

theorem SpelledBy.read {n : Number} {t rest : List Char} (spelled : n.SpelledBy t)
    (ends : Numeral.Ends rest) : Number.read.run (t ++ rest) = .ok (n, rest) := by
  obtain ⟨numeral, spelled, value⟩ := spelled
  rw [Number.read, run_bind, spelled.read ends]
  simp only [value]
  rfl

theorem read_takes : Number.read.Takes SpelledBy := by
  refine (Numeral.read_takes _).bind fun numeral t spelled => ?_
  split
  · rename_i n value
    apply Takes.pure
    rw [List.append_nil]
    exact ⟨numeral, spelled, value⟩
  · exact Takes.fail _

/-- What reads as a number begins with a minus sign or a digit. -/
theorem start_of_read {s : List Char} {x : Number × List Char} (reads : Number.read.run s = .ok x) :
    ∃ c t, s = c :: t ∧ (c = '-' ∨ c.isDigit) := by
  obtain ⟨n, rest⟩ := x
  obtain ⟨t, rfl, numeral, spelled, _⟩ := read_takes reads
  obtain ⟨c, u, rfl, start⟩ := spelled.start
  exact ⟨c, u ++ rest, rfl, start⟩

end Number

/-! ## Whole numbers -/

namespace Numeral

/-- The numeral that a whole number is written as. -/
def ofInt (n : Int) : Numeral := ⟨n < 0, Nat.toDigits 10 n.natAbs, none, none⟩

theorem isDigits_toDigits (n : Nat) : IsDigits (Nat.toDigits 10 n) :=
  ⟨Nat.toDigits_ne_nil, fun _ mem => Nat.isDigit_of_mem_toDigits (by decide) (by decide) mem⟩

theorem isWhole_toDigits (n : Nat) : IsWhole (Nat.toDigits 10 n) := by
  refine ⟨isDigits_toDigits n, fun zero => ?_⟩
  rcases Nat.eq_zero_or_pos n with rfl | pos
  · decide
  · exact absurd zero (head?_toDigits_ne pos)

/-- The text of a whole number spells its numeral. -/
theorem spelledBy_ofInt (n : Int) : (ofInt n).SpelledBy (Number.int n).write := by
  have spelled := SpelledBy.mk (n < 0) (isWhole_toDigits n.natAbs) .absent .absent
  simp only [List.append_nil, decide_eq_true_eq] at spelled
  exact spelled

/-- A whole number is told by its numeral. -/
theorem ofInt_injective {n m : Int} (same : ofInt n = ofInt m) : n = m := by
  have signs : decide (n < 0) = decide (m < 0) := congrArg negative same
  have digits : Nat.toDigits 10 n.natAbs = Nat.toDigits 10 m.natAbs := congrArg whole same
  have amounts : n.natAbs = m.natAbs := by
    have value := congrArg (Nat.ofDigitChars 10 · 0) digits
    simpa only [Nat.ofDigitChars_ten_toDigits] using value
  rw [decide_eq_decide] at signs
  omega

/-- The numeral of a whole number that a word holds, signed or unsigned, is read as that number. -/
theorem value_ofInt {n : Int} (low : -0x8000000000000000 ≤ n) (high : n < 0x10000000000000000) :
    (ofInt n).value = .ok (.int n) := by
  have fits : n.natAbs ≤ maxWord := by
    unfold maxWord
    omega
  simp only [ofInt, value, take_toDigits fits]
  by_cases negative : n < 0
  · have nonzero : ¬ (n.natAbs = 0 ∨ 0x8000000000000000 < n.natAbs) := by omega
    have value : -(n.natAbs : Int) = n := by omega
    rw [if_neg nonzero, value, decide_eq_true negative]
    rfl
  · have value : (n.natAbs : Int) = n := by omega
    simp [negative, value]

/-- Only a numeral without fraction and exponent is a whole number. -/
theorem plain_of_value_eq_int {numeral : Numeral} {n : Int}
    (h : numeral.value = .ok (.int n)) : numeral.fraction = none ∧ numeral.exponent = none := by
  simp only [value] at h
  split at h
  · exact ⟨‹_›, ‹_›⟩
  · split at h <;> cases h

end Numeral

namespace Number

/-- **A whole number that a word holds, signed or unsigned, reads back.** -/
theorem read_write_int {n : Int} {rest : List Char} (ends : Numeral.Ends rest)
    (low : -0x8000000000000000 ≤ n) (high : n < 0x10000000000000000) :
    Number.read.run ((Number.int n).write ++ rest) = .ok (.int n, rest) :=
  SpelledBy.read ⟨_, Numeral.spelledBy_ofInt n, Numeral.value_ofInt low high⟩ ends

/-- A text of a whole number holds no mark but the sign. -/
theorem SpelledBy.isDigit_of_int {n : Int} {t : List Char} (spelled : (int n).SpelledBy t) :
    ∀ c ∈ t, c.isDigit ∨ c = '-' := by
  obtain ⟨numeral, spelled, value⟩ := spelled
  obtain ⟨plain, plain'⟩ := Numeral.plain_of_value_eq_int value
  obtain @⟨negative, whole, _, _, _, _, isWhole, spellsFraction, spellsExponent⟩ := spelled
  cases plain
  cases plain'
  cases spellsFraction
  cases spellsExponent
  intro c mem
  simp only [List.append_nil, List.mem_append] at mem
  rcases mem with sign | digit
  · split at sign
    · exact .inr (List.mem_singleton.mp sign)
    · cases sign
  · exact .inl (isWhole.1.2 c digit)

end Number
end ShortForm
