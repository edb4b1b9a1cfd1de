import ShortForm.Json

/-!
# How deep brackets are nested

The reader gives up at the bracket that goes too deep, so what a text must keep within is the depth
of its brackets. There are two ways to say how deep that is. `textNesting` goes over a text
character by character and counts the brackets that stand outside of strings; it knows nothing of
the shape of the text. `nesting` goes by the value.

The two agree on every text that spells a value (`TextOf.deepest`), and so on every text that is
written. So a bound on the text of a value is a bound on the value, and an induction over the value
can use it.
-/

namespace ShortForm.Json

/-! ## Of a value -/

mutual

/-- How deep the brackets of a value are nested. -/
def nesting : Json → Nat
  | null | bool _ | number _ | string _ => 0
  | array items => itemsNesting items + 1
  | object members => membersNesting members + 1

/-- How deep the brackets of items are nested. -/
def itemsNesting : List Json → Nat
  | [] => 0
  | j :: rest => max j.nesting (itemsNesting rest)

/-- How deep the brackets of the values of members are nested. -/
def membersNesting : List (String × Json) → Nat
  | [] => 0
  | (_, j) :: rest => max j.nesting (membersNesting rest)

end

/-! ## Of a text -/

/-- Where a character of a text stands. -/
inductive Place where
  | outside
  | inString
  /-- Behind a backslash in a string. -/
  | escaped
  deriving DecidableEq

/-- How many brackets are open where most are, in a text that begins at this place with this many
brackets open. -/
def deepest (place : Place) (opened : Nat) : List Char → Nat
  | [] => opened
  | c :: rest =>
    match place with
    | .outside =>
      if c = '"' then deepest .inString opened rest
      else if c = '[' ∨ c = '\x7b' then deepest .outside (opened + 1) rest
      else if c = ']' ∨ c = '\x7d' then max opened (deepest .outside (opened - 1) rest)
      else deepest .outside opened rest
    | .inString =>
      if c = '"' then deepest .outside opened rest
      else if c = '\\' then deepest .escaped opened rest
      else deepest .inString opened rest
    | .escaped => deepest .inString opened rest

/-- How deep the brackets of a text are nested. -/
def textNesting (text : String) : Nat := deepest .outside 0 text.toList

theorem le_deepest (place : Place) (opened : Nat) (s : List Char) :
    opened ≤ deepest place opened s := by
  induction s generalizing place opened with
  | nil => exact Nat.le_refl _
  | cons c s ih =>
    cases place with
    | outside =>
      simp only [deepest]
      split
      · exact ih _ _
      split
      · exact Nat.le_of_succ_le (ih _ _)
      split
      · exact Nat.le_max_left _ _
      · exact ih _ _
    | inString =>
      simp only [deepest]
      split
      · exact ih _ _
      split
      · exact ih _ _
      · exact ih _ _
    | escaped => exact ih _ _

/-! ## Of parts of a text -/

/-- Characters that are neither quotes nor brackets do not count. -/
theorem deepest_plain {w : List Char} (plain : ∀ c ∈ w, c ∉ ['"', '[', '\x7b', ']', '\x7d'])
    (opened : Nat) (rest : List Char) :
    deepest .outside opened (w ++ rest) = deepest .outside opened rest := by
  induction w with
  | nil => rfl
  | cons c w ih =>
    have head := plain c List.mem_cons_self
    simp only [List.mem_cons, List.not_mem_nil, or_false, not_or] at head
    obtain ⟨quote, list, object, listEnd, objectEnd⟩ := head
    simp only [List.cons_append, deepest, quote, list, object, listEnd, objectEnd, or_self,
      if_false]
    exact ih fun d mem => plain d (List.mem_cons_of_mem c mem)

/-- The closing bracket of an array, and the text behind it. -/
theorem deepest_close {c : Char} (close : c = ']' ∨ c = '\x7d') (opened : Nat) (rest : List Char) :
    deepest .outside (opened + 1) (c :: rest) =
      max (opened + 1) (deepest .outside opened rest) := by
  rcases close with rfl | rfl <;> simp [deepest]

/-- A text without brackets in front counts as a value without brackets. -/
theorem deepest_flat {opened : Nat} {s rest : List Char}
    (flat : deepest .outside opened s = deepest .outside opened rest) :
    deepest .outside opened s = max (opened + 0) (deepest .outside opened rest) := by
  rw [flat]
  exact (Nat.max_eq_right (le_deepest .outside opened rest)).symm

end ShortForm.Json
