import ShortForm.Proofs.Named
import ShortForm.Proofs.Printer.Entries
import ShortForm.Proofs.Printer.Hidden

/-!
# The two layouts of an array

An array may have its slots as individual children, or several of them in a list child. Expanding a
tree puts every slot of every array into a child of its own, under names that are given in order;
lists that stand elsewhere stay lists, with their slots expanded. The short form does not change
(`Printer.render_expand`). So neither the grouping of slots nor the names of children can be told
from the short form of an array.

Expanding goes from the inside out, so at each node only the node itself is left to be spread, and
spreading keeps its slots (`Node.slots_spread`).
-/

namespace ShortForm

/-! ## Expanding -/

/-- An array with a child for each slot, named in order; any other node as it is. -/
def Node.spread (label : Nat → String) (n : Node) : Node :=
  if n.kind = .array then
    { n with children := n.slots.zipIdx.map fun (slot, i) => (label i, slot) }
  else n

mutual

/-- The node with every array in it spread. -/
def Node.expand (label : Nat → String) : Node → Node
  | ⟨kind, flags, line, children⟩ =>
    Node.spread label ⟨kind, flags, line, childrenExpand label children⟩

/-- The value with every array in it spread. -/
def Value.expand (label : Nat → String) : Value → Value
  | .null => .null
  | .bool b => .bool b
  | .int i => .int i
  | .float x => .float x
  | .string s => .string s
  | .node n => .node (n.expand label)
  | .list slots => .list (slotsExpand label slots)

def childrenExpand (label : Nat → String) : List (String × Value) → List (String × Value)
  | [] => []
  | (name, value) :: rest => (name, value.expand label) :: childrenExpand label rest

def slotsExpand (label : Nat → String) : List (Option Node) → List (Option Node)
  | [] => []
  | none :: rest => none :: slotsExpand label rest
  | some n :: rest => some (n.expand label) :: slotsExpand label rest

end

variable (label : Nat → String)

/-! ## Slots -/

theorem Node.slots_of_spread (kind : Kind) (flags : Flags) (line : UInt32) {slots : List Value}
    (own : ∀ slot ∈ slots, slot.slots = [slot]) :
    Node.slots ⟨kind, flags, line, slots.zipIdx.map fun (slot, i) => (label i, slot)⟩ = slots := by
  have own : ∀ entry ∈ slots.zipIdx, entry.1.slots = [entry.1] := fun entry mem =>
    own entry.1 (List.fst_mem_of_mem_zipIdx mem)
  calc (slots.zipIdx.map fun entry => (label entry.2, entry.1)).flatMap (fun entry => entry.2.slots)
    _ = slots.zipIdx.flatMap (·.1.slots) := List.flatMap_map ..
    _ = slots.zipIdx.flatMap fun entry => [entry.1] := by
      rw [List.flatMap_def, List.flatMap_def, List.map_congr_left own]
    _ = slots := by rw [← List.map_eq_flatMap, List.zipIdx_map_fst]

/-- What an array is made of stays when it is spread. -/
@[simp] theorem Node.slots_spread (n : Node) : (n.spread label).slots = n.slots := by
  unfold spread
  split
  · exact slots_of_spread label n.kind n.flags n.line fun _ => slots_of_mem_slots
  · rfl

/-- A value stands for the same slots, expanded. -/
theorem Value.slots_expand (v : Value) :
    (v.expand label).slots = v.slots.map (Value.expand label) := by
  have items (slots : List (Option Node)) : (slotsExpand label slots).map Node.ofSlot =
      (slots.map Node.ofSlot).map (Value.expand label) := by
    induction slots with
    | nil => rfl
    | cons slot rest ih => cases slot <;> simp [slotsExpand, ih, Node.ofSlot, Value.expand]
  cases v <;> first | rfl | exact items _

/-- A node has the same slots, expanded. -/
theorem Node.slots_expand (n : Node) :
    (n.expand label).slots = n.slots.map (Value.expand label) := by
  have entries (children : List (String × Value)) :
      (childrenExpand label children).flatMap (·.2.slots) =
        (children.flatMap (·.2.slots)).map (Value.expand label) := by
    induction children with
    | nil => rfl
    | cons entry rest ih =>
      simp only [childrenExpand, List.flatMap_cons, List.map_append, ih, Value.slots_expand]
  obtain ⟨kind, flags, line, children⟩ := n
  rw [Node.expand, slots_spread]
  exact entries children

/-! ## What expanding leads to -/

/-- Each child is one slot, and the children are named in order. -/
structure Node.IsSpread (n : Node) : Prop where
  noList : ∀ entry ∈ n.children, ∀ slots, entry.2 ≠ .list slots
  named : Named.names n.children = (List.range n.children.length).map label

theorem Node.isSpread_spread {n : Node} (array : n.kind = .array) :
    (n.spread label).IsSpread label := by
  rw [spread, if_pos array]
  constructor
  · intro entry mem items list
    obtain ⟨⟨slot, i⟩, inSlots, rfl⟩ := List.mem_map.mp mem
    have own := slots_of_mem_slots (List.fst_mem_of_mem_zipIdx inSlots)
    rw [show slot = .list items from list] at own
    -- a list never stands for itself: its slots are nodes and nulls
    cases items with
    | nil => cases own
    | cons item _ => cases item <;> cases own
  · have places : n.slots.zipIdx.map (·.2) = List.range n.slots.length := by
      rw [List.zipIdx_map_snd, List.range_eq_range']
    simp only [Named.names, List.length_map, List.length_zipIdx, ← places, List.map_map]
    rfl

/-- What occurs in an expanded value is an expanded node. -/
theorem Value.HasNode.of_expand {v : Value} {n : Node} (occurs : (v.expand label).HasNode n) :
    ∃ m : Node, n = m.expand label := by
  have ofSlots {n : Node} {slots : List Value} (mem : .node n ∈ slots.map (Value.expand label)) :
      ∃ m : Node, n = m.expand label := by
    obtain ⟨slot, _, same⟩ := List.mem_map.mp mem
    cases slot <;> cases same
    exact ⟨_, rfl⟩
  induction occurs with
  | outer mem => exact ofSlots (Value.slots_expand label v ▸ mem)
  | inner _ mem ih =>
    obtain ⟨m, rfl⟩ := ih
    exact ofSlots (Node.slots_expand label m ▸ mem)

/-- Every array in an expanded value is spread. -/
theorem Value.isSpread_of_expand {v : Value} {n : Node} (occurs : (v.expand label).HasNode n)
    (array : n.kind = .array) : n.IsSpread label := by
  obtain ⟨⟨kind, flags, line, children⟩, rfl⟩ := occurs.of_expand
  rw [Node.expand] at array ⊢
  refine Node.isSpread_spread label ?_
  unfold Node.spread at array
  split at array <;> exact array

/-! ## Expanding is not shown -/

/-- Nodes that differ in nothing but in children that are shown alike one by one are alike. -/
theorem Node.shownAlike_of_children (kind : Kind) (flags : Flags) (line : UInt32)
    {children others : List (String × Value)}
    (alike : List.Forall₂ (fun entry other => entry.1 = other.1 ∧ entry.2.ShownAlike other.2)
      children others) :
    Node.ShownAlike ⟨kind, flags, line, children⟩ ⟨kind, flags, line, others⟩ := by
  exact shownAlike_of_lookups rfl (fun _ => rfl) (fun _ => rfl)
    (fun name _ => Named.rel_get? alike name) fun _ => slotTokens_congr (alike.imp fun _ _ => (·.2))

/-- Spreading is not shown. -/
theorem Node.shownAlike_spread (n : Node) : n.ShownAlike (n.spread label) := by
  have slots : n.slotTokens = (n.spread label).slotTokens := by
    rw [← map_tokens_slots, ← map_tokens_slots, slots_spread]
  by_cases array : n.kind = .array
  · have step : n.spread label =
        { n with children := n.slots.zipIdx.map fun (slot, i) => (label i, slot) } := if_pos array
    refine shownAlike_of_lookups (by rw [step]) (fun _ => by rw [step]) (fun _ => by rw [step])
      (fun name mem => ?_) fun _ => slots
    rw [array] at mem
    cases mem
  · rw [spread, if_neg array]
    exact ⟨rfl, rfl⟩

mutual

/-- A node and its expansion are shown alike. -/
theorem Node.shownAlike_expand : (n : Node) → n.ShownAlike (n.expand label)
  | ⟨kind, flags, line, children⟩ => by
    have inside := Node.shownAlike_of_children kind flags line (childrenShownAlike children)
    have outside := Node.shownAlike_spread label ⟨kind, flags, line, childrenExpand label children⟩
    rw [Node.expand]
    exact ⟨inside.whole.trans outside.whole, inside.slot.trans outside.slot⟩

/-- A value and its expansion are shown alike. -/
theorem Value.shownAlike_expand : (v : Value) → v.ShownAlike (v.expand label)
  | .null | .bool _ | .int _ | .float _ | .string _ => by
    rw [Value.expand]
    exact .refl _
  | .node n => by
    rw [Value.expand]
    exact (Node.shownAlike_expand n).value
  | .list slots => by
    rw [Value.expand]
    exact .list (slotsShownAlike slots)

theorem childrenShownAlike : (children : List (String × Value)) →
    List.Forall₂ (fun entry other => entry.1 = other.1 ∧ entry.2.ShownAlike other.2) children
      (childrenExpand label children)
  | [] => .nil
  | (_, value) :: rest => .cons ⟨rfl, Value.shownAlike_expand value⟩ (childrenShownAlike rest)

theorem slotsShownAlike : (slots : List (Option Node)) →
    List.Forall₂ (Option.Rel Node.ShownAlike) slots (slotsExpand label slots)
  | [] => .nil
  | none :: rest => .cons .none (slotsShownAlike rest)
  | some n :: rest => .cons (.some (Node.shownAlike_expand n)) (slotsShownAlike rest)

end

/-- **Expanding is not shown**: it puts every slot of an array into a child of its own, and the
short form stays. So values with the same expansion have the same short form. -/
theorem Printer.render_expand (v : Value) :
    (∀ n, (v.expand label).HasNode n → n.kind = .array → n.IsSpread label) ∧
      (∀ placeholder, (standard placeholder).render (v.expand label) =
        (standard placeholder).render v) ∧
      ∀ w : Value, w.expand label = v.expand label →
        ∀ placeholder, (standard placeholder).render w = (standard placeholder).render v := by
  have same (v : Value) (placeholder : String) :
      (standard placeholder).render (v.expand label) = (standard placeholder).render v := by
    rw [render_standard, render_standard, (v.shownAlike_expand label).whole]
  refine ⟨fun n => Value.isSpread_of_expand label, same v, fun w expansion placeholder => ?_⟩
  rw [← same w, expansion, same v]

/-- An array with a list child, an empty one and a list in an element, and the same slots in other
groups and under other names. -/
theorem Printer.render_expand_grouped :
    let element (v : Value) : Node := ⟨.arrayElem, .zero, 0, [("value", v)]⟩
    let v : Value := .node ⟨.array, .zero, 0, [("a", .list [none, some (element (.int 1))]),
      ("b", .list []), ("c", .node (element (.list [none])))]⟩
    let w : Value := .node ⟨.array, .zero, 0, [("c", .null),
      ("d", .list [some (element (.int 1)), some (element (.list [none]))])]⟩
    v.expand Nat.repr = .node ⟨.array, .zero, 0, [("0", .null), ("1", .node (element (.int 1))),
        ("2", .node (element (.list [none])))]⟩ ∧
      w.expand Nat.repr = v.expand Nat.repr ∧
      (standard "?").render w = (standard "?").render v ∧
      (standard "?").render v = "[,1,[null]]" := by
  intro element v w
  have expansion : w.expand Nat.repr = v.expand Nat.repr := rfl
  have same := (render_expand Nat.repr v).2.2 w expansion "?"
  exact ⟨rfl, expansion, same, by decide +kernel⟩

end ShortForm
