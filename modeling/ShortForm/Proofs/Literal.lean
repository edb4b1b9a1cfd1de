import ShortForm.Literal
import ShortForm.Proofs.Json.SpelledNumber

/-!
# Literals told apart

The literals of null, of the truth values and of the numbers stand without quotes. Their texts tell
them apart, and none of them holds a character that the layout of an array or the quotes of a string
need. A string ends where its closing quote is followed by something other than a blank: behind a
blank the quotes are opened again. No literal holds a character that would break the line
(`Value.breaksLine_of_mem_literal`).

Doubles are not told apart further than by their texts.
-/

namespace ShortForm.Literal

/-! ## Literals without quotes -/

/-- A whole number is shown as JSON writes it. -/
theorem toList_toString (n : Int) : (toString n).toList = (Number.int n).write := by
  rw [Int.toString_eq_repr, Int.repr_eq_if, Number.write]
  by_cases negative : n < 0
  · rw [if_neg (by omega), if_pos negative, String.toList_append, Nat.toList_repr]
    congr
    omega
  · rw [if_pos (by omega), if_neg negative, Nat.toList_repr, List.nil_append]
    congr
    omega

theorem isDigit_of_mem_toString {n : Int} {c : Char} (mem : c ∈ (toString n).toList) :
    c.isDigit ∨ c = '-' := by
  rw [toList_toString, Number.write, List.mem_append] at mem
  rcases mem with sign | digit
  · split at sign
    · exact .inr (List.mem_singleton.mp sign)
    · cases sign
  · exact .inl (Nat.isDigit_of_mem_toDigits (by decide) (by decide) digit)

theorem toString_ne_nil (n : Int) : (toString n).toList ≠ [] := by
  rw [toList_toString, Number.write]
  intro empty
  exact Nat.toDigits_ne_nil (List.append_eq_nil_iff.mp empty).2

/-- Different numbers have different literals. -/
theorem toString_injective {m n : Int64} (same : toString m.toInt = toString n.toInt) : m = n := by
  have written : (Number.int m.toInt).write = (Number.int n.toInt).write := by
    rw [← toList_toString, ← toList_toString, same]
  have spelled := Numeral.spelledBy_ofInt m.toInt
  rw [written] at spelled
  have numerals := spelled.unique (Numeral.spelledBy_ofInt n.toInt)
  exact Int64.toInt_inj.mp (Numeral.ofInt_injective numerals)

/-- A character that can stand in the literal of a double. -/
def isFloatPart (c : Char) : Bool := Numeral.isPart c || c ∈ ['N', 'A', 'I', 'F']

theorem isFloatPart_of_mem_float {x : Binary64} {c : Char} (mem : c ∈ (float x).toList) :
    isFloatPart c := by
  have words : ∀ word ∈ ["NAN", "-INF", "INF"], word.toList.all isFloatPart := by decide
  unfold float at mem
  split at mem
  · exact List.all_eq_true.mp (words _ (by decide)) c mem
  · split at mem
    · split at mem <;> exact List.all_eq_true.mp (words _ (by decide)) c mem
    · rw [String.toList_ofList] at mem
      rw [isFloatPart, Binary64.isPart_of_mem_decimal mem, Bool.true_or]

/-- The literal of a double holds a point, an exponent or a letter that no whole number has. -/
theorem mark_mem_float (x : Binary64) :
    '.' ∈ (float x).toList ∨ 'e' ∈ (float x).toList ∨ 'N' ∈ (float x).toList := by
  unfold float
  split
  · exact .inr (.inr (by decide))
  · split
    · split <;> exact .inr (.inr (by decide))
    · rw [String.toList_ofList]
      exact (Binary64.mark_mem_decimal floatStyle x).imp id .inl

/-- The literal of a finite double is its decimal. -/
theorem toList_float {x : Binary64} (finite : x.isFinite) :
    (float x).toList = x.decimal floatStyle := by
  have below : x.magnitude < Magnitude.infinity := of_decide_eq_true finite
  have number : x.isNaN = false := by
    simpa only [Binary64.isNaN, decide_eq_false_iff_not] using Nat.not_lt_of_gt below
  have bounded : x.isInfinite = false := by
    simpa only [Binary64.isInfinite, beq_eq_false_iff_ne] using Nat.ne_of_lt below
  simp [float, number, bounded]

theorem float_ne_nil (x : Binary64) : (float x).toList ≠ [] := by
  rcases mark_mem_float x with mark | mark | mark <;> exact List.ne_nil_of_mem mark

/-- The literals of null and of the truth values hold a letter that no number has. -/
theorem letter_mem_word : ∀ word ∈ ["null", "true", "false"],
    'l' ∈ word.toList ∨ 't' ∈ word.toList := by
  decide

theorem toString_ne_word (n : Int) : toString n ∉ ["null", "true", "false"] := by
  intro word
  rcases letter_mem_word _ word with letter | letter
  · exact absurd (isDigit_of_mem_toString letter) (by decide)
  · exact absurd (isDigit_of_mem_toString letter) (by decide)

theorem float_ne_word (x : Binary64) : float x ∉ ["null", "true", "false"] := by
  intro word
  rcases letter_mem_word _ word with letter | letter
  · exact absurd (isFloatPart_of_mem_float letter) (by decide)
  · exact absurd (isFloatPart_of_mem_float letter) (by decide)

/-- A whole number and a double have different literals. -/
theorem toString_ne_float (n : Int) (x : Binary64) : toString n ≠ float x := by
  intro same
  rcases mark_mem_float x with mark | mark | mark
  all_goals
    rw [← same] at mark
    exact absurd (isDigit_of_mem_toString mark) (by decide)

/-! ## Strings -/

/-- What stands for a character in a string is not the beginning of what stands for another. -/
theorem quoted_append_inj {c d : Char} {x y : List Char} (same : quoted c ++ x = quoted d ++ y) :
    c = d ∧ x = y := by
  unfold quoted at same
  split at same <;> split at same <;> simp at same <;> grind

/-- A quote in front of anything else than a blank is the last one of a string. -/
theorem quoted_append_ne {c : Char} {x rest : List Char} (ends : rest.head? ≠ some ' ') :
    quoted c ++ x ≠ '\'' :: rest := by
  intro same
  unfold quoted at same
  split at same <;> simp at same <;> grind

/-- **A quoted text is read off the beginning of a text in one way only.** -/
theorem quotedText_inj {s t : List Char} {rest other : List Char} (ends : rest.head? ≠ some ' ')
    (otherEnds : other.head? ≠ some ' ')
    (same : s.flatMap quoted ++ '\'' :: rest = t.flatMap quoted ++ '\'' :: other) :
    s = t ∧ rest = other := by
  induction s generalizing t with
  | nil =>
    cases t with
    | nil => simpa using same
    | cons d t =>
      rw [List.flatMap_cons, List.append_assoc] at same
      exact absurd same.symm (quoted_append_ne ends)
  | cons c s ih =>
    cases t with
    | nil =>
      rw [List.flatMap_cons, List.append_assoc] at same
      exact absurd same (quoted_append_ne otherEnds)
    | cons d t =>
      rw [List.flatMap_cons, List.append_assoc, List.flatMap_cons, List.append_assoc] at same
      obtain ⟨rfl, behind⟩ := quoted_append_inj same
      obtain ⟨rfl, ends⟩ := ih behind
      exact ⟨rfl, ends⟩

end ShortForm.Literal

namespace ShortForm

/-! ## Characters that break a line -/

/-- A character that would break the line. -/
def breaksLine (c : Char) : Bool := c ∈ ['\n', '\r', '\x00']

theorem breaksLine_of_isFloatPart {c : Char} (part : Literal.isFloatPart c) :
    breaksLine c = false := by
  rw [Bool.eq_false_iff]
  intro breaks
  simp only [breaksLine, decide_eq_true_eq, List.mem_cons, List.not_mem_nil, or_false] at breaks
  rcases breaks with rfl | rfl | rfl <;> exact absurd part (by decide)

/-- What stands for a character in a string does not break the line, whatever the character. -/
theorem Literal.breaksLine_of_mem_quoted {c d : Char} (mem : c ∈ quoted d) :
    breaksLine c = false := by
  unfold quoted at mem
  split at mem
  case h_6 plain =>
    simp_all [breaksLine]
  all_goals
    revert c
    simp [breaksLine]

/-- A string is quoted without such a character, whatever it holds. -/
theorem Literal.breaksLine_of_mem_string {s : String} {c : Char} (mem : c ∈ (string s).toList) :
    breaksLine c = false := by
  rw [string, String.toList_ofList, List.mem_cons, List.mem_append, List.mem_flatMap,
    List.mem_singleton] at mem
  rcases mem with rfl | ⟨d, _, mem⟩ | rfl
  · rfl
  · exact breaksLine_of_mem_quoted mem
  · rfl

/-- No literal holds such a character. -/
theorem Value.breaksLine_of_mem_literal {v : Value} {text : String}
    (literal : v.literal? = some text) {c : Char} (mem : c ∈ text.toList) :
    breaksLine c = false := by
  have word : ∀ text ∈ ["null", "true", "false"], ∀ c ∈ text.toList, breaksLine c = false := by
    simp [breaksLine]
  cases v with
  | null => exact word text (by cases literal; decide) c mem
  | bool b => exact word text (by cases b <;> cases literal <;> decide) c mem
  | int n =>
    cases literal
    rcases Literal.isDigit_of_mem_toString mem with digit | rfl
    · refine breaksLine_of_isFloatPart ?_
      rw [Literal.isFloatPart, Numeral.isPart_of_isDigit digit, Bool.true_or]
    · rfl
  | float x =>
    cases literal
    exact breaksLine_of_isFloatPart (Literal.isFloatPart_of_mem_float mem)
  | string s =>
    cases literal
    exact Literal.breaksLine_of_mem_string mem
  | node n => cases literal
  | list slots => cases literal

end ShortForm
