import ShortForm.Proofs.Named
import ShortForm.Proofs.Printer.Hidden
import ShortForm.Proofs.Tree.Alike

/-!
# Trees alike have one short form

Two trees are alike when kinds, flags, lines and slots agree in place, children agree name by name
in any order, and doubles agree as numbers. A renderer that looks its children up by their names
cannot tell such trees apart. What can is an array, which goes by the places of its children, and a
zero, which shows its sign. Apart from these two, trees that are alike have one short form
(`Printer.render_eq_of_alike`).
-/

namespace ShortForm

/-! ## Paths -/

/-- One step down into a value. -/
inductive Step where
  /-- To the child under this name. -/
  | child (name : String)
  /-- To the node in this slot of a list. -/
  | slot (index : Nat)

/-- The value a step leads to. -/
def Value.step? : Value → Step → Option Value
  | .node n, .child name => n.child? name
  | .list slots, .slot index => (slots[index]?.join).map .node
  | _, _ => none

/-- The value that a path leads to. -/
def Value.at? (v : Value) : List Step → Option Value
  | [] => some v
  | step :: path => (v.step? step).bind fun w => w.at? path

/-- Every array in the first value has its children in the order of the node at the same path of the
second. -/
def Value.SameArrayOrder (v w : Value) : Prop :=
  ∀ path n m, v.at? path = some (.node n) → w.at? path = some (.node m) → n.kind = .array →
    Named.names n.children = Named.names m.children

namespace Value.SameArrayOrder

/-- The order is the same one step down. -/
theorem step {v w a b : Value} (order : v.SameArrayOrder w) (step : Step)
    (left : v.step? step = some a) (right : w.step? step = some b) : a.SameArrayOrder b := by
  intro path n m leads others
  refine order (step :: path) n m ?_ ?_
  · rwa [at?, left]
  · rwa [at?, right]

/-- The order is the same in the slots behind the first. -/
theorem tail {slot other : Option Node} {slots others : List (Option Node)}
    (order : (Value.list (slot :: slots)).SameArrayOrder (.list (other :: others))) :
    (Value.list slots).SameArrayOrder (.list others) := by
  intro path n m leads leads'
  cases path with
  | nil => cases leads
  | cons step path =>
    cases step with
    | child name => cases leads
    | slot index => exact order (.slot (index + 1) :: path) n m leads leads'

theorem of_isScalar {v : Value} (scalar : v.isScalar) (w : Value) : v.SameArrayOrder w := by
  intro path n m leads
  cases path with
  | nil => cases leads; cases scalar
  | cons step path => cases v <;> first | cases leads | cases scalar

/-- Nodes have the order in common if their children do, and they themselves if they are arrays. -/
theorem node {n m : Node}
    (order : n.kind = .array → Named.names n.children = Named.names m.children)
    (deeper : ∀ name v w, n.child? name = some v → m.child? name = some w → v.SameArrayOrder w) :
    (Value.node n).SameArrayOrder (.node m) := by
  intro path k l left right array
  cases path with
  | nil =>
    cases left
    cases right
    exact order array
  | cons step path =>
    cases step with
    | slot index => cases left
    | child name =>
      obtain ⟨v, found, left⟩ := Option.bind_eq_some_iff.mp left
      obtain ⟨w, found', right⟩ := Option.bind_eq_some_iff.mp right
      exact deeper name v w found found' path k l left right array

end Value.SameArrayOrder

/-! ## Alike trees are shown alike -/

/-- Nodes are shown alike if every child of the first is found in the second and shown alike, there
are no more, and those of an array are in the same order. -/
theorem Node.shownAlike_of_children_found {n m : Node} (kind : n.kind = m.kind)
    (flags : n.flags = m.flags) (distinct : (Named.names n.children).Nodup)
    (length : n.children.length = m.children.length)
    (found : ∀ name v, (name, v) ∈ n.children → ∃ w, m.child? name = some w ∧ v.ShownAlike w)
    (order : n.kind = .array → Named.names n.children = Named.names m.children) :
    n.ShownAlike m := by
  refine shownAlike_of_lookups kind (fun _ => by rw [flags]) (fun _ => by rw [flags])
    (fun name _ => ?_) fun array => ?_
  · unfold FindsAlike
    cases here : n.child? name with
    | some v =>
      obtain ⟨w, there, alike⟩ := found name v (Named.mem_of_get? here)
      rw [there]
      exact .some alike
    | none =>
      have among := Named.names_subset_of_get? found
      have there : m.child? name = none := Named.get?_eq_none_iff.mpr fun mem =>
        Named.get?_eq_none_iff.mp here (Named.mem_names_of_length_eq distinct length among mem)
      rw [there]
      exact .none
  · exact slotTokens_congr (Named.forall₂_of_get? (order array) distinct found)

theorem Binary64.eq_of_sameNumber {x y : Binary64} (same : x.sameNumber y)
    (notZero : x.magnitude ≠ 0) : x = y := by
  simp [sameNumber, notZero] at same
  exact same.2

/-- Apart from zeros, a scalar is only like itself. -/
theorem Value.eq_of_alike {v w : Value} (scalar : v.isScalar) (alike : v.alike w)
    (notZero : ∀ x ∈ v.floats, x.magnitude ≠ 0) : v = w := by
  rcases same_or_float scalar alike with rfl | ⟨x, y, rfl, rfl, same⟩
  · rfl
  · rw [Binary64.eq_of_sameNumber same (notZero x (List.mem_singleton_self x))]

/-- What is known of two nodes as values is known of them as nodes. -/
theorem Node.ShownAlike.of_value {n m : Node} (alike : (Value.node n).ShownAlike (.node m)) :
    n.ShownAlike m :=
  ⟨alike.whole, (List.cons.inj alike.slots).1⟩

/-- Values that are alike are shown alike. -/
theorem Value.shownAlike_of_alike {v w : Value} (distinct : v.NamesDistinct) (alike : v.alike w)
    (notZero : ∀ x ∈ v.floats, x.magnitude ≠ 0) (order : v.SameArrayOrder w) :
    v.ShownAlike w := by
  induction v using Value.induct generalizing w with
  | scalar v isScalar =>
    rw [← eq_of_alike isScalar alike notZero]
    exact .refl v
  | node n ih =>
    obtain ⟨m, rfl, nodes⟩ := alike_node.mp alike
    obtain ⟨kind, flags, _, length, found⟩ := Node.alike_iff.mp nodes
    obtain ⟨names, inside⟩ := Node.namesDistinct_iff.mp distinct
    refine (Node.shownAlike_of_children_found kind flags names length (fun name v mem => ?_)
      (order [] n m rfl rfl)).value
    obtain ⟨w, there, same⟩ := found name v mem
    refine ⟨w, there, ih name v mem (inside name v mem) same (fun x here => notZero x ?_) ?_⟩
    · obtain ⟨kind, flags, line, children⟩ := n
      exact mem_childrenFloats.mpr ⟨name, v, mem, here⟩
    · exact order.step (.child name) (Named.get?_of_mem names mem) there
  | list slots ih =>
    obtain ⟨others, rfl, slotwise⟩ := alike_list.mp alike
    have inside := slotsNamesDistinct_iff.mp distinct
    simp only [floats, mem_slotsFloats] at notZero
    refine .list ?_
    clear alike distinct
    induction slotwise with
    | nil => exact .nil
    | @cons slot other slots others here _ later =>
      refine .cons ?_ (later (fun n mem => ih n (List.mem_cons_of_mem slot mem)) order.tail
        (fun n mem => inside n (List.mem_cons_of_mem slot mem)) fun x within => ?_)
      · cases here with
        | none => exact .none
        | @some n m nodes =>
          rw [← alike_node_node] at nodes
          refine .some (.of_value (ih n List.mem_cons_self (inside n List.mem_cons_self) nodes
            (fun x here => notZero x ⟨n, List.mem_cons_self, here⟩) ?_))
          exact order.step (.slot 0) rfl rfl
      · obtain ⟨n, mem, here⟩ := within
        exact notZero x ⟨n, List.mem_cons_of_mem slot mem, here⟩

/-- **Trees that are alike have one short form**, unless there is a zero or an array whose children
are in another order. The order matters: two arrays may be alike and have two short forms, whatever
the placeholder. So does the sign of a zero. -/
theorem Printer.render_eq_of_alike :
    (∀ v w : Value, v.NamesDistinct → v.alike w → (∀ x ∈ v.floats, x.magnitude ≠ 0) →
      v.SameArrayOrder w →
      ∀ placeholder, (standard placeholder).render v = (standard placeholder).render w) ∧
    (∃ n m : Node, n.kind = .array ∧ m.kind = .array ∧ n.NamesDistinct ∧ n.alike m ∧
      (∀ x ∈ n.floats, x.magnitude ≠ 0) ∧
      ∀ placeholder, (standard placeholder).render (.node n) ≠
        (standard placeholder).render (.node m)) ∧
    ∃ x y : Binary64, (Value.float x).alike (.float y) ∧
      ∀ placeholder, (standard placeholder).render (.float x) ≠
        (standard placeholder).render (.float y) := by
  refine ⟨fun v w distinct alike notZero order placeholder => ?_, ?_, ?_⟩
  · have shown := Value.shownAlike_of_alike distinct alike notZero order
    rw [render_standard, render_standard, shown.whole]
  · let n : Node := ⟨.array, .zero, 0, [("0", .int 1), ("1", .int 2)]⟩
    let m : Node := ⟨.array, .zero, 0, [("1", .int 2), ("0", .int 1)]⟩
    refine ⟨n, m, rfl, rfl, ?_, by decide +kernel, ?_, ?_⟩
    · simp [n, Node.NamesDistinct, ChildrenNamesDistinct, Value.NamesDistinct, Named.names]
    · simp [n, Node.floats, childrenFloats, Value.floats]
    · intro placeholder
      have shown : Registry.standard.skeleton (.node n) =
            [.text "[", .text "1", .text ",", .text "2", .text "]"] ∧
          Registry.standard.skeleton (.node m) =
            [.text "[", .text "2", .text ",", .text "1", .text "]"] := by
        decide +kernel
      rw [render_standard, render_standard, shown.1, shown.2]
      simp [Token.fill, Token.fillOne]
  · refine ⟨⟨0⟩, ⟨0x8000000000000000⟩, by decide +kernel, fun placeholder => ?_⟩
    rw [render_of_literal _ rfl, render_of_literal _ rfl]
    decide

/-- An array with a double and a class constant whose children are put in either order. -/
theorem Printer.render_eq_of_alike_reordered :
    let owner : String × Value := ("class", .node ⟨.name, .zero, 0, [("name", .string "A")]⟩)
    let array (children : List (String × Value)) : Value := .node ⟨.array, .zero, 0,
      [("b", .float (.ofInt 3)), ("a", .node ⟨.classConst, .zero, 0, children⟩)]⟩
    let v := array [owner, ("const", .string "B")]
    let w := array [("const", .string "B"), owner]
    v.NamesDistinct ∧ v.alike w ∧ (∀ x ∈ v.floats, x.magnitude ≠ 0) ∧ v.SameArrayOrder w ∧
      (standard "?").render v = (standard "?").render w ∧
      (standard "?").render v = "[3.0,A::B]" := by
  intro owner array v w
  have distinct : v.NamesDistinct := by
    simp [v, array, owner, Value.NamesDistinct, Node.NamesDistinct, ChildrenNamesDistinct,
      Named.names]
  have alike : v.alike w := by decide +kernel
  have notZero : ∀ x ∈ v.floats, x.magnitude ≠ 0 := by decide +kernel
  have order : v.SameArrayOrder w := by
    refine .node (fun _ => rfl) fun name a b left right => ?_
    rcases List.mem_pair.mp (Named.mem_of_get? left) with same | same <;> cases same
    · exact .of_isScalar rfl b
    · cases right
      refine .node (fun isArray => by cases isArray) fun name a b left right => ?_
      rcases List.mem_pair.mp (Named.mem_of_get? left) with same | same <;>
        obtain ⟨rfl, rfl⟩ := Prod.mk.inj same
      · cases right
        refine .node (fun isArray => by cases isArray) fun name a b left right => ?_
        cases List.mem_singleton.mp (Named.mem_of_get? left)
        exact .of_isScalar rfl b
      · exact .of_isScalar rfl b
  exact ⟨distinct, alike, notZero, order,
    render_eq_of_alike.1 v w distinct alike notZero order "?", by decide +kernel⟩

end ShortForm
