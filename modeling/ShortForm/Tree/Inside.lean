import ShortForm.Tree

/-!
# Inside a node

A value lies inside a node when it is a child of it, a node in a slot of such a child, or lies
inside a node that does. Every value inside a node is smaller than the node, so work that only
goes further inside comes to an end.
-/

namespace ShortForm

/-- The value lies strictly inside the node. -/
inductive Value.Inside : Value → Node → Prop where
  | child {n : Node} {name : String} {v : Value} : (name, v) ∈ n.children → Inside v n
  | slot {n m : Node} {name : String} {slots : List (Option Node)} :
      (name, .list slots) ∈ n.children → some m ∈ slots → Inside (.node m) n
  | trans {n m : Node} {v : Value} : Inside v m → Inside (.node m) n → Inside v n

theorem Node.sizeOf_child_lt {n : Node} {name : String} {v : Value}
    (mem : (name, v) ∈ n.children) : sizeOf v < sizeOf n := by
  have entry := List.sizeOf_lt_of_mem mem
  obtain ⟨kind, flags, line, children⟩ := n
  simp only [Prod.mk.sizeOf_spec, Node.mk.sizeOf_spec] at entry ⊢
  omega

theorem Value.sizeOf_slot_lt {m : Node} {slots : List (Option Node)} (mem : some m ∈ slots) :
    sizeOf (Value.node m) < sizeOf (Value.list slots) := by
  have slot := List.sizeOf_lt_of_mem mem
  simp only [Option.some.sizeOf_spec, Value.node.sizeOf_spec, Value.list.sizeOf_spec] at slot ⊢
  omega

/-- A value inside a node is smaller than the node. -/
theorem Value.Inside.sizeOf_lt {v : Value} {n : Node} (inside : v.Inside n) :
    sizeOf v < sizeOf n := by
  induction inside with
  | child mem => exact Node.sizeOf_child_lt mem
  | slot mem slot => exact Nat.lt_trans (Value.sizeOf_slot_lt slot) (Node.sizeOf_child_lt mem)
  | trans _ _ deeper higher =>
    simp only [Value.node.sizeOf_spec] at higher
    omega

/-- What is found under a name lies inside the node. -/
theorem Value.Inside.of_child? {n : Node} {name : String} {v : Value}
    (found : n.child? name = some v) : v.Inside n :=
  .child (Named.mem_of_get? found)

end ShortForm
