import ShortForm.Proofs.Binary64
import ShortForm.Proofs.Json.CutShort
import ShortForm.Proofs.Json.Injective

/-!
# Numbers that are cut short

What is left of a numeral that is cut short spells a numeral of its own, or ends in front of a
digit that has to follow (`Numeral.SpelledBy.cutShort`). The numeral that is left lacks digits of
some part and the parts behind that (`Numeral.CutTo`).

Such a numeral can stand for a much greater number, because its exponent can lack digits or be
missing. But if a word holds the digits in front of the point, then only an exponent above zero
makes a number too great, and one that lacks digits does so less (`Numeral.CutTo.value`). Without
that it would not hold: four hundred digits with an exponent of minus three hundred are a number,
and the digits alone are not. No number is written that way (`Number.IsBounded.take_whole`).
-/

namespace ShortForm

open Reader

namespace Numeral

/-! ## Numerals that are cut short -/

/-- What may be left of a numeral that is cut in one of its parts: the parts in front, and some of
the digits of that part. -/
inductive CutTo : Numeral → Numeral → Prop where
  | whole (negative : Bool) {whole front : List Char} {fraction : Option (List Char)}
      {exponent : Option (Bool × List Char)} : front <+: whole →
      CutTo ⟨negative, whole, fraction, exponent⟩ ⟨negative, front, none, none⟩
  | fraction (negative : Bool) (whole : List Char) {ds front : List Char}
      {exponent : Option (Bool × List Char)} : front <+: ds →
      CutTo ⟨negative, whole, some ds, exponent⟩ ⟨negative, whole, some front, none⟩
  | exponent (negative : Bool) (whole : List Char) (fraction : Option (List Char))
      {below : Bool} {ds front : List Char} : front <+: ds →
      CutTo ⟨negative, whole, fraction, some (below, ds)⟩
        ⟨negative, whole, fraction, some (below, front)⟩

theorem CutTo.fractionLeft (negative : Bool) (whole : List Char)
    {fraction left : Option (List Char)} (exponent : Option (Bool × List Char))
    (isLeft : ∀ ds ∈ left, ∃ full ∈ fraction, ds <+: full) :
    CutTo ⟨negative, whole, fraction, exponent⟩ ⟨negative, whole, left, none⟩ := by
  cases left with
  | none => exact .whole negative (List.prefix_refl whole)
  | some ds =>
    obtain ⟨full, rfl, isFront⟩ := isLeft ds rfl
    exact .fraction negative whole isFront

theorem CutTo.exponentLeft (negative : Bool) (whole : List Char) (fraction : Option (List Char))
    {exponent left : Option (Bool × List Char)}
    (isLeft : ∀ e ∈ left, ∃ full ∈ exponent, e.1 = full.1 ∧ e.2 <+: full.2) :
    CutTo ⟨negative, whole, fraction, exponent⟩ ⟨negative, whole, fraction, left⟩ := by
  rcases left with _ | ⟨below, ds⟩
  · exact CutTo.fractionLeft negative whole exponent fun ds mem => ⟨ds, mem, List.prefix_refl ds⟩
  · obtain ⟨⟨_, full⟩, rfl, rfl, isFront⟩ := isLeft ⟨below, ds⟩ rfl
    exact .exponent negative whole fraction isFront

variable {atEnd : Fault} {ds t : List Char} {fraction : Option (List Char)}
  {exponent : Option (Bool × List Char)}

theorem IsDigits.front {front : List Char} (isDigits : IsDigits ds) (isFront : front <+: ds)
    (nonempty : front ≠ []) : IsDigits front :=
  ⟨nonempty, fun c mem => isDigits.2 c (isFront.subset mem)⟩

theorem IsWhole.front {front : List Char} (isWhole : IsWhole ds) (isFront : front <+: ds)
    (nonempty : front ≠ []) : IsWhole front := by
  refine ⟨isWhole.1.front isFront nonempty, fun zero => ?_⟩
  have alone := isWhole.2 (mem_head?_of_front isFront zero)
  have short := isFront.length_le
  have pos := List.length_pos_iff.mpr nonempty
  omega

/-- Digits are cut short to fewer digits, and where none is left the text ends too early. -/
theorem cutShort_of_fronts {p : Reader (List Char)} (early : RunsOut (· <+: ds) (p.run []))
    (reads : ∀ front, front <+: ds → front ≠ [] → p.run (front ++ []) = .ok (front, [])) :
    p.CutShort (· <+: ds) ds := by
  intro front back eq _
  have isFront : front <+: ds := ⟨back, eq.symm⟩
  by_cases empty : front = []
  · rw [empty]
    exact early
  · have reads := reads front isFront empty
    rw [List.append_nil] at reads
    rw [reads]
    exact .whole isFront

theorem IsDigits.cutShort (ending : atEnd.kind = .ending) (isDigits : IsDigits ds) :
    (digits atEnd).CutShort (· <+: ds) ds :=
  cutShort_of_fronts (.early ending) fun _ isFront nonempty =>
    (isDigits.front isFront nonempty).read ends_nil.not_isDigit atEnd

theorem IsWhole.cutShort (ending : atEnd.kind = .ending) (isWhole : IsWhole ds) :
    (wholeDigits atEnd).CutShort (· <+: ds) ds :=
  cutShort_of_fronts (.early ending) fun _ isFront nonempty =>
    (isWhole.front isFront nonempty).read ends_nil.not_isDigit atEnd

/-- The digits of a fraction may be missing with the point, but not all of them behind it. -/
theorem SpellsFraction.cutShort (ending : atEnd.kind = .ending)
    (spells : SpellsFraction fraction t) : (fractionDigits atEnd).CutShort
      (fun left => ∀ ds ∈ left, ∃ full ∈ fraction, ds <+: full) t := by
  cases spells with
  | absent => exact .nil
  | @digits ds isDigits =>
    have behind : (Numeral.digits atEnd >>= fun ds => pure (some ds)).CutShort
        (fun left => ∀ front ∈ left, ∃ full ∈ some ds, front <+: full) ds :=
      (isDigits.cutShort ending).finish fun left isFront => .whole (by simpa using isFront)
    refine .cons (.whole nofun) (fun s => ?_) behind
    simp only [fractionDigits, run_bind, run_peek, List.head?_cons, if_true, run_next]
    rfl

/-- The exponent behind its letter. -/
def exponentRest (atEnd : Fault) : Reader (Option (Bool × List Char)) := do
  let sign ← peek
  if sign = some '-' ∨ sign = some '+' then next
  let ds ← digits atEnd
  pure (some (sign = some '-', ds))

theorem exponentDigits_letter {letter : Char} (isLetter : letter = 'e' ∨ letter = 'E')
    (atEnd : Fault) (s : List Char) :
    (exponentDigits atEnd).run (letter :: s) = (exponentRest atEnd).run s := by
  simp only [exponentDigits, run_bind, run_peek, List.head?_cons, Option.some.injEq, isLetter,
    if_true, run_next]
  rfl

/-- The digits of an exponent may be missing with the letter, but not all of them behind it. -/
theorem SpellsExponent.cutShort (ending : atEnd.kind = .ending)
    (spells : SpellsExponent exponent t) : (exponentDigits atEnd).CutShort
      (fun left => ∀ e ∈ left, ∃ full ∈ exponent, e.1 = full.1 ∧ e.2 <+: full.2) t := by
  have number (below : Bool) {ds : List Char} (isDigits : IsDigits ds) :
      (digits atEnd >>= fun ds => pure (some (below, ds))).CutShort
        (fun left => ∀ e ∈ left, ∃ full ∈ some (below, ds), e.1 = full.1 ∧ e.2 <+: full.2) ds :=
    (isDigits.cutShort ending).finish fun left isFront => .whole (by simpa using isFront)
  cases spells with
  | absent => exact .nil
  | unsigned isLetter isDigits =>
    have digits := number false isDigits
    obtain ⟨c, t, rfl, digit⟩ := isDigits.cons
    have minus := @ne_of_isDigit _ '-' digit (by decide)
    have plus := @ne_of_isDigit _ '+' digit (by decide)
    refine .cons (.whole nofun) (exponentDigits_letter isLetter atEnd) ?_
    exact .begins (.early ending) (fun s => by simp [exponentRest, minus, plus]) digits
  | plus isLetter isDigits =>
    refine .cons (.whole nofun) (exponentDigits_letter isLetter atEnd) ?_
    exact .cons (.early ending) (fun s => rfl) (number false isDigits)
  | minus isLetter isDigits =>
    refine .cons (.whole nofun) (exponentDigits_letter isLetter atEnd) ?_
    exact .cons (.early ending) (fun s => rfl) (number true isDigits)

/-- A numeral behind its sign. -/
def unsigned (atEnd : Fault) (negative : Bool) : Reader Numeral := do
  let whole ← wholeDigits atEnd
  let fraction ← fractionDigits atEnd
  let exponent ← exponentDigits atEnd
  pure { negative, whole, fraction, exponent }

theorem read_eq_unsigned (atEnd : Fault) : Numeral.read atEnd = minus >>= unsigned atEnd := rfl

/-- **A numeral is cut short to another one**, or ends in front of a digit that has to follow. -/
theorem SpelledBy.cutShort {n : Numeral} (ending : atEnd.kind = .ending)
    (spelled : n.SpelledBy t) : (Numeral.read atEnd).CutShort n.CutTo t := by
  obtain @⟨negative, whole, fractionText, exponentText, fraction, exponent, isWhole, spellsFraction,
    spellsExponent⟩ := spelled
  have behindFraction := spellsExponent.not_isDigit ends_nil
  have behindWhole := spellsFraction.not_isDigit fun c mem => (behindFraction c mem).1
  rw [List.append_nil] at behindFraction behindWhole
  have exponentPart : (exponentDigits atEnd >>= fun e =>
      pure ⟨negative, whole, fraction, e⟩).CutShort
      (CutTo ⟨negative, whole, fraction, exponent⟩) exponentText :=
    (spellsExponent.cutShort ending).finish fun left isLeft =>
      .whole (.exponentLeft negative whole fraction isLeft)
  have fractionPart : (fractionDigits atEnd >>= fun f =>
      exponentDigits atEnd >>= fun e => pure ⟨negative, whole, f, e⟩).CutShort
      (CutTo ⟨negative, whole, fraction, exponent⟩) (fractionText ++ exponentText) :=
    (spellsFraction.cutShort ending).bind
      (fun front isFront => spellsFraction.read
        (fun c mem => behindFraction c (mem_head?_of_front isFront mem)) atEnd)
      (fun left isLeft => .whole (.fractionLeft negative whole exponent isLeft)) exponentPart
  have wholePart : (unsigned atEnd negative).CutShort
      (CutTo ⟨negative, whole, fraction, exponent⟩) (whole ++ (fractionText ++ exponentText)) :=
    (isWhole.cutShort ending).bind
      (fun front isFront => isWhole.read
        (fun c mem => behindWhole c (mem_head?_of_front isFront mem)) atEnd)
      (fun left isFront => .whole (.whole negative isFront)) fractionPart
  rw [read_eq_unsigned]
  cases negative with
  | true => exact .cons (.early ending) (fun s => rfl) wholePart
  | false =>
    obtain ⟨c, t, rfl, digit⟩ := isWhole.1.cons
    have sign (s : List Char) : minus.run (c :: s) = .ok (false, c :: s) := minus_run digit false
    exact .begins (.early ending) (fun s => by rw [run_bind, sign]) wholePart

end Numeral

/-! ## Magnitudes that are no infinity -/

namespace Magnitude

theorem ofNat_lt_infinity {n : Nat} (fits : n ≤ Numeral.maxWord) : ofNat n < infinity :=
  Nat.lt_of_le_of_lt (nearest_mono Nat.one_pos fits) (by decide +kernel)

/-- A power of ten within reach is a double. -/
theorem power_lt_infinity {k : Nat} (reach : k ≤ 308) : ofNat (Nat.pow 10 k) < infinity :=
  Nat.lt_of_le_of_lt (nearest_mono Nat.one_pos (Nat.pow_le_pow_right (by decide) reach))
    (by decide +kernel)

/-- A smaller factor makes no more. -/
theorem mul_mono (m : Magnitude) {a b : Magnitude} (le : a ≤ b) : m.mul a ≤ m.mul b := by
  -- The exponent is forgotten first, or the power would be evaluated.
  have square : 0 < Nat.pow 2 2148 := by
    generalize 2148 = e
    exact Nat.two_pow_pos e
  exact nearest_mono square (Nat.mul_le_mul_left _ (units_strictMono.monotone le))

/-- The number one in units. -/
theorem units_ofNat_one : units (ofNat 1) = Nat.pow 2 1074 := by decide +kernel

theorem mul_one {m : Magnitude} (finite : m < infinity) : m.mul (ofNat 1) = m := by
  have unit : Nat.pow 2 2148 = Nat.pow 2 1074 * Nat.pow 2 1074 := by decide +kernel
  rw [mul, units_ofNat_one, unit]
  exact (nearest_mul_mul m.units (Nat.pow 2 1074) unit_pos).trans (nearest_units finite)

theorem zero_mul (m : Magnitude) : mul 0 m = 0 := by
  rw [mul, units_of_lt (by decide), Nat.zero_mul]
  decide +kernel

theorem mul_le_infinity (a b : Magnitude) : a.mul b ≤ infinity := Nat.min_le_right _ _

end Magnitude

namespace Numeral

/-- A magnitude can always be scaled down. -/
theorem scale_down {m : Magnitude} {e : Int} (down : e < 0) : (scale m e).isSome := by
  fun_induction scale m e with
  | case1 | case4 => rfl
  | case2 | case3 | case5 => omega
  | case6 m e far _ _ ih => exact ih (by omega)

/-- A finite magnitude need not be scaled. -/
theorem scale_zero {m : Magnitude} (finite : m < .infinity) : scale m 0 = some m := by
  have same := Magnitude.mul_one finite
  unfold scale
  simp [same, Nat.ne_of_lt finite]

/-- What can be scaled up: zero, and what is no infinity afterwards if the power is within reach. -/
theorem scale_up_iff {m : Magnitude} {e : Int} (up : 0 ≤ e) : (scale m e).isSome ↔
    m = 0 ∨ e ≤ 308 ∧ m.mul (.ofNat (Nat.pow 10 e.natAbs)) ≠ .infinity := by
  have notDown : ¬ e < 0 := by omega
  have reach : e.natAbs ≤ 308 ↔ e ≤ 308 := by omega
  unfold scale
  by_cases near : e ≤ 308
  · by_cases zero : m = 0
    · simp [reach, near, notDown, zero, Magnitude.zero_mul, Magnitude.infinity]
    · simp [reach, near, notDown, zero]
  · by_cases zero : m = 0
    · simp [reach, near, zero]
    · simp [reach, near, zero, up]

/-- What can be scaled up can be scaled up by less. -/
theorem scale_up_le {m : Magnitude} {e e' : Int} (up : 0 ≤ e) (le : e ≤ e')
    (scales : (scale m e').isSome) : (scale m e).isSome := by
  rw [scale_up_iff (by omega)] at scales
  rw [scale_up_iff up]
  refine scales.imp_right fun ⟨reach, finite⟩ => ⟨by omega, ?_⟩
  have powers : Magnitude.ofNat (Nat.pow 10 e.natAbs) ≤ .ofNat (Nat.pow 10 e'.natAbs) :=
    Magnitude.nearest_mono Nat.one_pos (Nat.pow_le_pow_right (by decide) (by omega))
  have less := m.mul_mono powers
  have finite' := Nat.lt_of_le_of_ne (m.mul_le_infinity _) finite
  exact Nat.ne_of_lt (Nat.lt_of_le_of_lt less finite')

theorem scale_nonpos {m : Magnitude} {e : Int} (finite : m < .infinity) (nonpos : e ≤ 0) :
    (scale m e).isSome := by
  rcases Int.lt_or_eq_of_le nonpos with down | rfl
  · exact scale_down down
  · rw [scale_zero finite]
    rfl

/-! ## Digits that are taken -/

section

variable {limit n e : Nat} {front ds : List Char}

theorem le_take (limit n : Nat) (ds : List Char) : n ≤ (take limit n ds).1 := by
  induction ds generalizing n with
  | nil => exact Nat.le_refl n
  | cons c ds ih =>
    rw [take]
    split
    · have more := ih (n * 10 + (c.toNat - '0'.toNat))
      omega
    · exact Nat.le_refl n

theorem take_le (ds : List Char) (le : n ≤ limit) : (take limit n ds).1 ≤ limit := by
  induction ds generalizing n with
  | nil => exact le
  | cons c ds ih =>
    rw [take]
    split
    · exact ih ‹_›
    · exact le

/-- Where all digits are taken, those of a front are too, and make no more. -/
theorem take_front (isFront : front <+: ds) (all : take limit n ds = (e, [])) :
    ∃ e' ≤ e, take limit n front = (e', []) := by
  induction front generalizing n ds with
  | nil =>
    have grows := le_take limit n ds
    rw [all] at grows
    exact ⟨n, grows, rfl⟩
  | cons c front ih =>
    obtain ⟨more, rfl⟩ := isFront
    rw [List.cons_append, take] at all
    split at all
    · obtain ⟨e', le, taken⟩ := ih ⟨more, rfl⟩ all
      exact ⟨e', le, by rw [take, if_pos ‹_›, taken]⟩
    · cases all

/-- Digits are all taken if as many nines could be. -/
theorem take_digits (digits : ∀ c ∈ ds, c.isDigit) (room : (n + 1) * 10 ^ ds.length ≤ limit + 1) :
    ∃ e, take limit n ds = (e, []) := by
  induction ds generalizing n with
  | nil => exact ⟨n, rfl⟩
  | cons c ds ih =>
    have digit : c.toNat - '0'.toNat ≤ 9 := by
      have bounds := Char.isDigit_iff_toNat.mp (digits c List.mem_cons_self)
      exact Nat.sub_le_of_le_add bounds.2
    have room' : (n * 10 + (c.toNat - '0'.toNat) + 1) * 10 ^ ds.length ≤ limit + 1 := by
      refine Nat.le_trans (Nat.mul_le_mul_right _ (m := (n + 1) * 10) (by omega)) ?_
      rwa [Nat.mul_assoc, ← Nat.pow_succ']
    have here := Nat.le_trans (Nat.le_mul_of_pos_right _ (Nat.pow_pos (by decide))) room'
    rw [take, if_pos (by omega)]
    exact ih (fun d mem => digits d (List.mem_cons_of_mem c mem)) room'

end

/-! ## Values of numerals that are cut short -/

section

variable {s k : Nat} {e : Int} {below : Bool} {ds : List Char}

theorem magnitude_taken (all : take maxExponent 0 ds = (k, [])) :
    magnitude s e (some (below, ds)) = scale (.ofNat s) (if below then e - k else e + k) := by
  simp only [magnitude, all]

theorem magnitude_long (long : (take maxExponent 0 ds).2 ≠ []) :
    magnitude s e (some (below, ds)) = if below ∨ s = 0 then some 0 else none := by
  simp only [magnitude]
  split
  · rename_i all
    simp [all] at long
  · rfl

/-- An exponent below zero makes no number too great. -/
theorem magnitude_below (fits : s ≤ maxWord) (nonpos : e ≤ 0) (ds : List Char) :
    (magnitude s e (some (true, ds))).isSome := by
  by_cases taken : (take maxExponent 0 ds).2 = []
  · rw [magnitude_taken (Prod.ext rfl taken), if_pos rfl]
    exact scale_nonpos (Magnitude.ofNat_lt_infinity fits) (by omega)
  · rw [magnitude_long taken, if_pos (.inl rfl)]
    rfl

/-- Nothing makes zero too great. -/
theorem magnitude_zero (e : Int) (below : Bool) (ds : List Char) :
    (magnitude 0 e (some (below, ds))).isSome := by
  have zero : Magnitude.ofNat 0 = 0 := by decide +kernel
  by_cases taken : (take maxExponent 0 ds).2 = []
  · rw [magnitude_taken (Prod.ext rfl taken), zero]
    rcases Int.le_total (if below then e - (take maxExponent 0 ds).1
      else e + (take maxExponent 0 ds).1) 0 with down | up
    · exact scale_nonpos (by decide) down
    · exact (scale_up_iff up).mpr (.inl rfl)
  · rw [magnitude_long taken, if_pos (.inr rfl)]
    rfl

/-- A number that is not too great is not too great with a shorter exponent. -/
theorem magnitude_front {front : List Char} (fits : s ≤ maxWord) (nonpos : e ≤ 0)
    (isFront : front <+: ds) (isSome : (magnitude s e (some (below, ds))).isSome) :
    (magnitude s e (some (below, front))).isSome := by
  cases below with
  | true => exact magnitude_below fits nonpos front
  | false =>
    by_cases taken : (take maxExponent 0 ds).2 = []
    · obtain ⟨k, less, taken'⟩ := take_front isFront (Prod.ext rfl taken)
      rw [magnitude_taken (Prod.ext rfl taken), if_neg Bool.false_ne_true] at isSome
      rw [magnitude_taken taken', if_neg Bool.false_ne_true]
      rcases Int.le_total (e + k) 0 with down | up
      · exact scale_nonpos (Magnitude.ofNat_lt_infinity fits) down
      · exact scale_up_le up (by omega) isSome
    · have zero : s = 0 := by simpa [magnitude_long taken] using isSome
      rw [zero]
      exact magnitude_zero e false front

end

section

variable (negative : Bool) {whole : List Char} {w : Nat}

/-- A numeral of digits alone is a number if a word holds them. -/
theorem value_digits (taken : take maxWord 0 whole = (w, [])) :
    ∃ n, value ⟨negative, whole, none, none⟩ = .ok n := by
  simp only [value, taken]
  split
  · exact ⟨_, rfl⟩
  split
  · exact ⟨_, rfl⟩
  · exact ⟨_, rfl⟩

/-- With a fraction or an exponent, it is up to the exponent whether a numeral is a number. The
digits of the fraction that are taken lower it. -/
theorem value_marked (taken : take maxWord 0 whole = (w, [])) (fraction : Option (List Char)) :
    ∃ s ≤ maxWord, ∃ e ≤ (0 : Int), ∀ exponent, fraction ≠ none ∨ exponent ≠ none →
      ((∃ n, value ⟨negative, whole, fraction, exponent⟩ = .ok n) ↔
        (magnitude s e exponent).isSome) := by
  have fits : w ≤ maxWord := by
    have le := take_le whole (Nat.zero_le maxWord)
    rwa [taken] at le
  refine ⟨(take maxWord w (fraction.getD [])).1, take_le _ fits,
    -((fraction.getD []).length - (take maxWord w (fraction.getD [])).2.length : Nat),
    by omega, fun exponent marked => ?_⟩
  simp only [value, taken, List.length_nil, Int.natCast_zero, Int.zero_sub]
  split
  · simp at marked
  · split
    · simp [*]
    · simp [*]

end

/-- **What is left of a number is a number**, if a word holds the digits in front of its point. -/
theorem CutTo.value {n m : Numeral} {w : Nat} (cut : n.CutTo m)
    (taken : take maxWord 0 n.whole = (w, [])) (number : ∃ x, n.value = .ok x) :
    ∃ x, m.value = .ok x := by
  cases cut with
  | whole negative isFront =>
    obtain ⟨w', _, taken'⟩ := take_front isFront taken
    exact value_digits negative taken'
  | @fraction negative whole ds front exponent isFront =>
    obtain ⟨s, fits, e, nonpos, value_iff⟩ := value_marked negative taken (some front)
    exact (value_iff none (.inl (Option.some_ne_none _))).mpr
      (scale_nonpos (Magnitude.ofNat_lt_infinity fits) nonpos)
  | exponent negative whole fraction isFront =>
    obtain ⟨s, fits, e, nonpos, value_iff⟩ := value_marked negative taken fraction
    have marked (ds : Bool × List Char) : fraction ≠ none ∨ some ds ≠ none :=
      .inr (Option.some_ne_none ds)
    exact (value_iff _ (marked _)).mpr
      (magnitude_front fits nonpos isFront ((value_iff _ (marked _)).mp number))

end Numeral

/-! ## Numbers in texts -/

theorem Numeral.SpelledBy.isWhole {n : Numeral} {t : List Char} (spelled : n.SpelledBy t) :
    IsWhole n.whole := by
  obtain ⟨_, isWhole, _, _⟩ := spelled
  exact isWhole

section

variable {goesOn : Number → Prop} {numeral : Numeral} {t : List Char}

/-- The text of a numeral is settled if what may be left of it could go on. -/
theorem Numeral.SpelledBy.settles (spelled : numeral.SpelledBy t) (some : ∃ n, goesOn n)
    (each : ∀ left, (∃ n, numeral.value = .ok n) → numeral.CutTo left →
      ∃ n, left.value = .ok n ∧ goesOn n) :
    Number.read.Settles goesOn t numeral.value where
  run rest ends := by
    obtain ⟨n, goes⟩ := some
    rw [Number.read, run_bind, spelled.read (ends n goes)]
    simp only
    cases numeral.value <;> rfl
  cut n ok := (spelled.cutShort rfl).finish fun left cut => by
    obtain ⟨m, value, goes⟩ := each left ⟨n, ok⟩ cut
    simp only [value, run_pure]
    exact .whole goes

end

/-- The numeral of a double has at most sixteen digits in front of its point. -/
theorem Binary64.length_whole (x : Binary64) :
    (x.numeral Number.floatStyle).whole.length ≤ 16 := by
  unfold numeral
  split
  · simp
  generalize Decimal.shortest _ _ = d
  unfold Decimal.numeral
  split
  · rename_i positional
    have place : d.point ≤ 16 := by
      simp only [Number.floatStyle, decide_eq_true_eq] at positional
      omega
    unfold Decimal.positionalNumeral
    split
    · simp
    · simp
      omega
  · simp only [Decimal.scientificNumeral, List.length_take]
    omega

namespace Number

/-- The number is a finite double, or whole and held by a word, signed or unsigned. -/
def IsBounded : Number → Prop
  | int n => -0x8000000000000000 ≤ n ∧ n < 0x10000000000000000
  | float x => x.isFinite

variable {n : Number}

theorem IsBounded.isFinite (bounded : n.IsBounded) : n.IsFinite := by
  cases n with
  | int n => trivial
  | float x => exact bounded

/-- A word holds the digits that a number is written with in front of its point. -/
theorem IsBounded.take_whole (bounded : n.IsBounded) :
    ∃ w, Numeral.take Numeral.maxWord 0 n.numeral.whole = (w, []) := by
  cases n with
  | int n =>
    have fits : n.natAbs ≤ Numeral.maxWord := by
      obtain ⟨low, high⟩ := bounded
      unfold Numeral.maxWord
      omega
    exact ⟨_, Numeral.take_toDigits fits⟩
  | float x =>
    have digits := (Binary64.spelledBy_decimal floatStyle bounded).isWhole.1.2
    have short : 10 ^ (x.numeral floatStyle).whole.length ≤ 10 ^ 16 :=
      Nat.pow_le_pow_right (by decide) x.length_whole
    have room : (0 + 1) * 10 ^ (x.numeral floatStyle).whole.length ≤ Numeral.maxWord + 1 := by
      unfold Numeral.maxWord
      omega
    exact Numeral.take_digits digits room

/-- The text of a number is settled. -/
theorem IsBounded.settled (bounded : n.IsBounded) :
    Number.read.Settled (fun _ => True) n.write := by
  obtain ⟨w, taken⟩ := bounded.take_whole
  refine ⟨_, (spelledBy_write bounded.isFinite).settles ⟨n, trivial⟩ fun left number cut => ?_⟩
  obtain ⟨m, value⟩ := cut.value taken number
  exact ⟨m, value, trivial⟩

theorem isSome_word?_int {k : Nat} (fits : k < 0x100000000) : (int k).word?.isSome := by
  have fits' : 0 ≤ (k : Int) ∧ (k : Int) < 0x100000000 := by omega
  rw [word?, if_pos fits']
  rfl

/-- What is left of a word is a word. -/
theorem settled_word (w : UInt32) :
    Number.read.Settled (fun n => n.word?.isSome) (int w.toNat).write := by
  have fits := w.toNat_lt
  refine ⟨_, (Numeral.spelledBy_ofInt w.toNat).settles
    ⟨int w.toNat, isSome_word?_int fits⟩ fun left _ cut => ?_⟩
  have taken : Numeral.take Numeral.maxWord 0 (Nat.toDigits 10 (w.toNat : Int).natAbs) =
      (w.toNat, []) := Numeral.take_toDigits (by unfold Numeral.maxWord; omega)
  have positive : decide ((w.toNat : Int) < 0) = false := by simp
  rw [Numeral.ofInt, positive] at cut
  cases cut with
  | whole _ isFront =>
    obtain ⟨k, le, taken'⟩ := Numeral.take_front isFront taken
    refine ⟨int k, ?_, isSome_word?_int (Nat.lt_of_le_of_lt le fits)⟩
    simp [Numeral.value, taken']

end Number
end ShortForm
