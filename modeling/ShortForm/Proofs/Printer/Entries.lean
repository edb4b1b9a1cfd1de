import ShortForm.Proofs.Printer.Piece

/-!
# The entries that a short form depends on

A short form depends on the entries of its registry for the kinds that occur in the value, and on no
other. While the renderers are the built-in ones, under whatever kinds they stand, an element in a
slot of an array is shown by the array itself. So if elements occur nowhere else, not even the entry
for elements matters (`Printer.render_eq_of_entries`).
-/

namespace ShortForm

open Piece

/-! ## Nodes in a value -/

/-- The node occurs in the value, at any depth. -/
inductive Value.HasNode (v : Value) : Node → Prop where
  | outer {n : Node} (mem : .node n ∈ v.slots) : HasNode v n
  | inner {n m : Node} (occurs : HasNode v n) (mem : .node m ∈ n.slots) : HasNode v m

/-- A node in a child is in a slot, whether it is the child or an item of it. -/
theorem Node.mem_slots_of_child? {n m : Node} {name : String} {v : Value}
    (found : n.child? name = some v) (mem : .node m ∈ v.slots) : .node m ∈ n.slots :=
  List.mem_flatMap.mpr ⟨(name, v), Named.mem_of_get? found, mem⟩

/-- A slot stands for itself. -/
theorem Node.slots_of_mem_slots {n : Node} {slot : Value} (mem : slot ∈ n.slots) :
    slot.slots = [slot] := by
  obtain ⟨⟨_, v⟩, _, mem⟩ := List.mem_flatMap.mp mem
  cases v with
  | list items =>
    obtain ⟨item, _, rfl⟩ := List.mem_map.mp mem
    cases item <;> rfl
  | _ =>
    obtain rfl := List.mem_singleton.mp mem
    rfl

/-- What occurs in a part occurs in the whole. -/
theorem Value.HasNode.of_part {v w : Value} (parts : ∀ m, .node m ∈ w.slots → v.HasNode m)
    {n : Node} (occurs : w.HasNode n) : v.HasNode n := by
  induction occurs with
  | outer mem => exact parts _ mem
  | inner _ mem ih => exact ih.inner mem

/-! ## Built-in renderers -/

namespace Registry

/-- Every renderer of the registry is one that some kind has of its own. -/
def IsBuiltIn (r : Registry) : Prop :=
  ∀ kind renderer, r.find? kind = some renderer → ∃ own, Renderer.ofKind? own = some renderer

/-- A built-in renderer turns to nodes among the children, unless it is that of arrays, which turns
to what its slots turn to. -/
theorem IsBuiltIn.turns {r : Registry} (builtIn : r.IsBuiltIn) {n : Node} {w : Value}
    (turns : .value w ∈ r.pieces (.node n)) :
    (r.find? n.kind ≠ some Renderer.array ∧
        ∃ name m, n.child? name = some (.node m) ∧ w = .node m) ∨
      (r.find? n.kind = some Renderer.array ∧ ∃ slot ∈ n.slots, .value w ∈ ofArraySlot slot) := by
  have ofNode {name : String} (mem : Option.map Value.node (n.childNode? name) = some w) :
      ∃ name m, n.child? name = some (.node m) ∧ w = .node m := by
    obtain ⟨m, found, rfl⟩ := Option.map_eq_some_iff.mp mem
    exact ⟨name, m, Node.childNode?_eq_some.mp found, rfl⟩
  by_cases array : r.find? n.kind = some Renderer.array
  · refine .inr ⟨array, ?_⟩
    simp only [pieces, array, Renderer.pieces_array] at turns
    obtain ⟨_, mapped, turns⟩ := (mem_bracketed (by simp)).mp turns
    obtain ⟨slot, mem, rfl⟩ := List.mem_map.mp mapped
    exact ⟨slot, mem, turns⟩
  · refine .inl ⟨array, ?_⟩
    cases served : r.find? n.kind with
    | none => simp [pieces_of_find?_eq_none served] at turns
    | some renderer =>
      obtain ⟨own, standard⟩ := builtIn n.kind renderer served
      simp only [pieces, served] at turns
      rw [served] at array
      rcases standard_cases own with rfl | rfl | rfl | rfl | noRenderer
      · obtain rfl := Option.some.inj standard
        simp [Renderer.pieces_name] at turns
      · obtain rfl := Option.some.inj standard
        rw [Renderer.pieces_constant, List.mem_singleton, value_eq_ofValue?_iff] at turns
        exact ofNode turns
      · obtain rfl := Option.some.inj standard
        simp only [Renderer.pieces_classConst, List.mem_cons, value_eq_ofValue?_iff,
          value_ne_ofString?, List.not_mem_nil, reduceCtorEq, or_false] at turns
        exact ofNode turns
      · exact absurd standard.symm array
      · cases noRenderer.symm.trans standard

end Registry

/-! ## Elements in slots of arrays -/

/-- Every element that occurs in the value is in a slot of a node that is shown as an array and is
no element itself. -/
structure Value.ElementsInArrays (r : Registry) (v : Value) : Prop where
  outer : ∀ m, .node m ∈ v.slots → m.kind ≠ .arrayElem
  inner : ∀ n m, v.HasNode n → .node m ∈ n.slots → m.kind = .arrayElem →
    n.kind ≠ .arrayElem ∧ r.find? n.kind = some Renderer.array

namespace Value.ElementsInArrays

variable {r : Registry} {v w : Value}

/-- The outermost nodes of a part have to be something else than elements. -/
theorem of_part (inArrays : v.ElementsInArrays r)
    (parts : ∀ m, .node m ∈ w.slots → v.HasNode m ∧ m.kind ≠ .arrayElem) :
    w.ElementsInArrays r :=
  ⟨fun m mem => (parts m mem).2, fun n m occurs =>
    inArrays.inner n m (.of_part (fun k mem => (parts k mem).1) occurs)⟩

/-- What a step of a built-in renderer turns to is such a part: the array has dealt with the
elements in its slots, and what stands in an element is none. -/
theorem parts_of_mem_pieces (builtIn : r.IsBuiltIn) (inArrays : v.ElementsInArrays r)
    (turns : .value w ∈ r.pieces v) :
    ∀ m, .node m ∈ w.slots → v.HasNode m ∧ m.kind ≠ .arrayElem := by
  intro m mem
  cases v with
  | list slots =>
    obtain ⟨k, slotMem, rfl⟩ := Registry.slot_of_mem_pieces turns
    obtain ⟨rfl⟩ : Value.node m = .node k := List.mem_singleton.mp mem
    have outer : .node m ∈ (Value.list slots).slots := List.mem_map.mpr ⟨some m, slotMem, rfl⟩
    exact ⟨.outer outer, inArrays.outer m outer⟩
  | node n =>
    have here : (Value.node n).HasNode n := .outer (List.mem_singleton_self _)
    rcases builtIn.turns turns with ⟨notArray, name, k, found, rfl⟩ | ⟨_, slot, slotMem, turns⟩
    · have inSlot := Node.mem_slots_of_child? found mem
      exact ⟨here.inner inSlot, fun element =>
        notArray (inArrays.inner n m here inSlot element).2⟩
    · have ofSlot (same : slot = w) (notElement : ∀ k, slot = .node k → k.kind ≠ .arrayElem) :
          (Value.node n).HasNode m ∧ m.kind ≠ .arrayElem := by
        subst same
        rw [Node.slots_of_mem_slots slotMem, List.mem_singleton] at mem
        exact ⟨here.inner (mem ▸ slotMem), notElement m mem.symm⟩
      have ofElement (k : Node) (kMem : .node k ∈ n.slots) (element : k.kind = .arrayElem)
          {name : String} (found : k.child? name = some w) :
          (Value.node n).HasNode m ∧ m.kind ≠ .arrayElem := by
        have inSlot := Node.mem_slots_of_child? found mem
        exact ⟨(here.inner kMem).inner inSlot, fun nested =>
          (inArrays.inner k m (here.inner kMem) inSlot nested).1 element⟩
      cases slot with
      | null => cases turns
      | node k =>
        by_cases element : k.kind = .arrayElem
        · rw [ofArraySlot_element element, value_mem_ofElement_iff] at turns
          rcases turns with found | ⟨found, _⟩
          · exact ofElement k slotMem element found
          · exact ofElement k slotMem element found
        · rw [ofArraySlot_node element, List.mem_singleton] at turns
          exact ofSlot (Piece.value.inj turns).symm fun k' same => by cases same; exact element
      | _ => exact ofSlot (Piece.value.inj (List.mem_singleton.mp turns)).symm nofun
  | _ => simp [Registry.pieces, ofString?, literal?] at turns

end Value.ElementsInArrays

/-! ## Registries that agree -/

/-- Registries that agree on the kinds of the outermost nodes take the same step. -/
theorem Registry.pieces_congr {r s : Registry} {v : Value}
    (agree : ∀ n, .node n ∈ v.slots → r.find? n.kind = s.find? n.kind) :
    r.pieces v = s.pieces v := by
  cases v with
  | node n => rw [pieces, pieces, agree n (List.mem_singleton_self _)]
  | _ => rfl

/-- **A short form depends only on the entries for the kinds that occur**, and not on that for
elements, if the renderers are built-in ones and elements are in slots of arrays. -/
theorem Printer.render_eq_of_entries {r s : Registry} (builtIn : r.IsBuiltIn) {v : Value}
    (inArrays : v.ElementsInArrays r)
    (agree : ∀ n, v.HasNode n → n.kind ≠ .arrayElem → r.find? n.kind = s.find? n.kind)
    (options : Options) : render ⟨r, options⟩ v = render ⟨s, options⟩ v := by
  induction v using Registry.pieces_induction (r := r) with
  | step v ih =>
    have step : r.pieces v = s.pieces v :=
      Registry.pieces_congr fun n mem => agree n (.outer mem) (inArrays.outer n mem)
    rw [render_eq, render_eq, ← step, piecesText, piecesText]
    refine congrArg String.join (List.map_congr_left fun piece mem => ?_)
    cases piece with
    | value w =>
      have parts := inArrays.parts_of_mem_pieces builtIn mem
      exact ih w mem (inArrays.of_part parts) fun n occurs =>
        agree n (.of_part (fun m mem => (parts m mem).1) occurs)
    | _ => rfl

/-- Variables as arrays, in registries that differ for elements, names and constants; a list child
with an empty slot and an element. -/
theorem Printer.render_eq_of_entries_variable :
    let r : Registry := ⟨fun
      | .var => some Renderer.array
      | .arrayElem => some Renderer.constant
      | .classConst => some Renderer.name
      | _ => none⟩
    let s : Registry := ⟨fun
      | .var => some Renderer.array
      | .arrayElem => some Renderer.array
      | .classConst => some Renderer.name
      | .name => some Renderer.classConst
      | .const => some Renderer.array
      | _ => none⟩
    let owner : Node := ⟨.classConst, .zero, 0, [("name", .string "A")]⟩
    let element : Node := ⟨.arrayElem, .zero, 0, [("value", .node owner), ("key", .int 1)]⟩
    let whole : Node := ⟨.var, .zero, 0, [("slots", .list [none, some element])]⟩
    r.IsBuiltIn ∧ (Value.node whole).ElementsInArrays r ∧
      (∀ n, (Value.node whole).HasNode n → n.kind ≠ .arrayElem →
        r.find? n.kind = s.find? n.kind) ∧
      (∀ options, render ⟨r, options⟩ (.node whole) = render ⟨s, options⟩ (.node whole)) ∧
      render ⟨r, {}⟩ (.node whole) = "[,1=>A]" := by
  intro r s owner element whole
  have builtIn : r.IsBuiltIn := by
    intro kind renderer served
    simp only [r] at served
    split at served
    · exact ⟨.array, served⟩
    · exact ⟨.const, served⟩
    · exact ⟨.name, served⟩
    · cases served
  have nodes : ∀ n, (Value.node whole).HasNode n → n = whole ∨ n = element ∨ n = owner := by
    intro n occurs
    induction occurs with
    | outer mem => exact .inl (Value.node.inj (List.mem_singleton.mp mem))
    | inner _ mem ih =>
      rcases ih with rfl | rfl | rfl
      · simp [Node.slots, Value.slots, Node.ofSlot, whole] at mem
        exact .inr (.inl mem)
      · simp [Node.slots, Value.slots, element] at mem
        exact .inr (.inr mem)
      · simp [Node.slots, Value.slots, owner] at mem
  have inArrays : (Value.node whole).ElementsInArrays r := by
    refine ⟨fun m mem => ?_, fun n m occurs mem isElement => ?_⟩
    · obtain ⟨rfl⟩ := List.mem_singleton.mp mem
      decide
    · rcases nodes n occurs with rfl | rfl | rfl
      · exact ⟨by decide, rfl⟩
      · obtain rfl : m = owner := by
          simpa [Node.slots, Value.slots, element] using mem
        cases isElement
      · simp [Node.slots, Value.slots, owner] at mem
  have agree : ∀ n, (Value.node whole).HasNode n → n.kind ≠ .arrayElem →
      r.find? n.kind = s.find? n.kind := by
    intro n occurs notElement
    rcases nodes n occurs with rfl | rfl | rfl
    · rfl
    · exact absurd rfl notElement
    · rfl
  exact ⟨builtIn, inArrays, agree, render_eq_of_entries builtIn inArrays agree,
    by decide +kernel⟩

end ShortForm
