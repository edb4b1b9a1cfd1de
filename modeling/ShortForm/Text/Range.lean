/-!
# Ranges of characters

A set of characters as the first and last numbers of its ranges. The ranges of a table are in
order and do not touch.
-/

namespace ShortForm

/-- The character lies in one of the ranges. -/
def inRanges (table : List (Nat × Nat)) (c : Char) : Bool :=
  table.any fun (first, last) => first ≤ c.toNat && c.toNat ≤ last

end ShortForm
