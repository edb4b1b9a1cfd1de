/-!
# Flags

A node carries one word of flags. What the word means depends on the kind of the node: on a name
it says how the name is qualified, on an array in which form the array was written. A reading of
the word goes by its exact value and not by single bits, so every value has a meaning: the ones
that are not listed read as the plain case.
-/

namespace ShortForm

/-- The flags of a node, every bit kept as it is. -/
structure Flags where
  bits : UInt32
  deriving DecidableEq

namespace Flags

/-- No flag set. -/
def zero : Flags := ⟨0⟩

/-- The bits of either word. -/
def union (a b : Flags) : Flags := ⟨a.bits ||| b.bits⟩

/-- The bits of both words. -/
def inter (a b : Flags) : Flags := ⟨a.bits &&& b.bits⟩

/-- Every bit of `b` is set in `a`. -/
def contains (a b : Flags) : Bool := a.inter b == b

end Flags

/-- How a name is qualified. -/
inductive Qualification where
  /-- Written `\Foo`. -/
  | full
  /-- Written `namespace\Foo`. -/
  | relative
  /-- Written `Foo`. -/
  | bare
  deriving DecidableEq

namespace Qualification

/-- The flags of a name so qualified. -/
def flags : Qualification → Flags
  | full => ⟨1⟩
  | relative => ⟨2⟩
  | bare => ⟨0⟩

/-- The qualification that the flags of a name stand for. Values without a meaning of their own,
the union of the two marks among them, stand for a bare name. -/
def ofFlags (flags : Flags) : Qualification :=
  if flags = full.flags then full
  else if flags = relative.flags then relative
  else bare

theorem ofFlags_flags (q : Qualification) : ofFlags q.flags = q := by
  cases q <;> decide

end Qualification

/-- The form that an array was written in. -/
inductive ArrayForm where
  /-- Written `[a, b]`. -/
  | short
  /-- Written `array(a, b)`. -/
  | long
  /-- Written `list(a, b)`, which takes an array apart. -/
  | list
  deriving DecidableEq

namespace ArrayForm

/-- The flags of an array in this form. -/
def flags : ArrayForm → Flags
  | short => ⟨3⟩
  | long => ⟨2⟩
  | list => ⟨1⟩

/-- The form that the flags of an array stand for. Values without a meaning of their own stand for
the short form. -/
def ofFlags (flags : Flags) : ArrayForm :=
  if flags = list.flags then list
  else if flags = long.flags then long
  else short

theorem ofFlags_flags (form : ArrayForm) : ofFlags form.flags = form := by
  cases form <;> decide

end ArrayForm

end ShortForm
