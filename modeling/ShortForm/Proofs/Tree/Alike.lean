import Mathlib.Logic.Relation
import ShortForm.Proofs.Named
import ShortForm.Proofs.Tree.Kept
import ShortForm.Tree.Alike
import ShortForm.Tree.Inside

/-!
# Being alike

Being alike is symmetric and transitive, but not reflexive: a tree is like itself exactly if there
is no NaN in it. The order of children does not matter, at whatever depth
(`alike_partialEquivalence`).

The children of two nodes are compared from one side only: each child of the first is found in the
second under its name. That the second has no other children follows from their number, because the
names of the children of a node are distinct. Where names were repeated it would not follow.
-/

namespace ShortForm

/-! ## Numbers -/

namespace Binary64

theorem sameNumber_comm (x y : Binary64) : x.sameNumber y = y.sameNumber x := by
  simp only [sameNumber, Bool.and_comm (!x.isNaN), Bool.beq_comm (a := x),
    Bool.and_comm (x.magnitude == 0)]

theorem sameNumber_trans {x y z : Binary64} (first : x.sameNumber y) (second : y.sameNumber z) :
    x.sameNumber z := by
  simp only [sameNumber, Bool.and_eq_true, Bool.or_eq_true, beq_iff_eq] at first second ⊢
  refine ⟨⟨first.1.1, second.1.2⟩, ?_⟩
  rcases first.2, second.2 with ⟨rfl | zero, rfl | zero'⟩
  · exact .inl rfl
  · exact .inr zero'
  · exact .inr zero
  · exact .inr ⟨zero.1, zero'.2⟩

/-- A double is the same number as itself unless it is a NaN. -/
theorem sameNumber_self (x : Binary64) : x.sameNumber x = !x.isNaN := by
  simp [sameNumber]

end Binary64

/-! ## One step down -/

/-- What holds of a value if it holds of the values one step inside holds of every value. -/
@[elab_as_elim]
theorem Value.induct {P : Value → Prop} (scalar : ∀ v : Value, v.isScalar → P v)
    (node : ∀ n : Node, (∀ name v, (name, v) ∈ n.children → P v) → P (.node n))
    (list : ∀ slots, (∀ n, some n ∈ slots → P (.node n)) → P (.list slots)) (v : Value) : P v := by
  cases v with
  | node n => exact node n fun _ w mem => Value.induct scalar node list w
  | list slots => exact list slots fun n mem => Value.induct scalar node list (.node n)
  | _ => exact scalar _ rfl
termination_by sizeOf v
decreasing_by
  · have smaller := Node.sizeOf_child_lt mem
    simp only [Value.node.sizeOf_spec]
    omega
  · exact Value.sizeOf_slot_lt mem

theorem childrenAlike_iff {children others : Named Value} :
    childrenAlike children others ↔
      ∀ name v, (name, v) ∈ children → ∃ w, others.get? name = some w ∧ v.alike w := by
  induction children with
  | nil => simp [childrenAlike]
  | cons child children ih =>
    obtain ⟨key, u⟩ := child
    simp only [childrenAlike, Bool.and_eq_true, ih, List.mem_cons, Prod.mk.injEq]
    constructor
    · rintro ⟨here, later⟩ name v (⟨rfl, rfl⟩ | mem)
      · split at here
        · exact ⟨_, ‹_›, here⟩
        · cases here
      · exact later name v mem
    · intro each
      obtain ⟨w, found, alike⟩ := each key u (.inl ⟨rfl, rfl⟩)
      exact ⟨by rw [found]; exact alike, fun name v mem => each name v (.inr mem)⟩

theorem slotsAlike_iff {slots others : List (Option Node)} :
    slotsAlike slots others ↔
      List.Forall₂ (Option.Rel fun n m : Node => n.alike m) slots others := by
  induction slots generalizing others with
  | nil => cases others <;> simp [slotsAlike]
  | cons slot slots ih =>
    cases others with
    | nil => cases slot <;> simp [slotsAlike]
    | cons other others =>
      cases slot <;> cases other <;> simp [slotsAlike, ih]

/-- Nodes are alike if they agree in place, have as many children, and each child of the first is
like one under its name in the second. -/
theorem Node.alike_iff {n m : Node} :
    n.alike m ↔ n.kind = m.kind ∧ n.flags = m.flags ∧ n.line = m.line ∧
      n.children.length = m.children.length ∧
      ∀ name v, (name, v) ∈ n.children → ∃ w, m.child? name = some w ∧ v.alike w := by
  obtain ⟨kind, flags, line, children⟩ := n
  simp only [alike, Bool.and_eq_true, beq_iff_eq, and_assoc, childrenAlike_iff, child?]

@[simp] theorem Value.alike_node_node (n m : Node) : (node n).alike (node m) = n.alike m := by
  rw [alike]

theorem Value.alike_node {n : Node} {w : Value} :
    (Value.node n).alike w ↔ ∃ m, w = .node m ∧ n.alike m := by
  cases w <;> simp [alike]

theorem Value.alike_list {slots : List (Option Node)} {w : Value} :
    (Value.list slots).alike w ↔
      ∃ others, w = .list others ∧
        List.Forall₂ (Option.Rel fun n m : Node => n.alike m) slots others := by
  cases w <;> simp [alike, slotsAlike_iff]

/-- A scalar is like another that is the same, or if both are doubles that are the same number. -/
theorem Value.same_or_float {v w : Value} (scalar : v.isScalar) (same : v.alike w) :
    v = w ∨ ∃ x y, v = .float x ∧ w = .float y ∧ x.sameNumber y := by
  cases v with
  | node n => cases scalar
  | list slots => cases scalar
  | float x => cases w <;> simp_all [alike]
  | _ => cases w <;> simp_all [alike]

/-- Scalars are compared from both sides. -/
theorem Value.alike_comm_of_isScalar {v : Value} (scalar : v.isScalar) (w : Value) :
    v.alike w = w.alike v := by
  cases v with
  | node n => cases scalar
  | list slots => cases scalar
  | float x => cases w <;> simp [alike, Binary64.sameNumber_comm x]
  | _ => cases w <;> simp [alike, Bool.beq_comm]

theorem childrenNamesDistinct_iff {children : List (String × Value)} :
    ChildrenNamesDistinct children ↔ ∀ name v, (name, v) ∈ children → v.NamesDistinct := by
  induction children with
  | nil => simp [ChildrenNamesDistinct]
  | cons child children ih =>
    simp [ChildrenNamesDistinct, ih, Prod.ext_iff, or_imp, forall_and]

theorem Node.namesDistinct_iff {n : Node} :
    n.NamesDistinct ↔ (Named.names n.children).Nodup ∧
      ∀ name v, (name, v) ∈ n.children → v.NamesDistinct := by
  cases n
  exact and_congr_right fun _ => childrenNamesDistinct_iff

theorem slotsNamesDistinct_iff {slots : List (Option Node)} :
    SlotsNamesDistinct slots ↔ ∀ n, some n ∈ slots → n.NamesDistinct := by
  induction slots with
  | nil => simp [SlotsNamesDistinct]
  | cons slot slots ih =>
    cases slot with
    | none => simp [SlotsNamesDistinct, ih]
    | some n => simp [SlotsNamesDistinct, ih, or_imp, forall_and]

/-- Lists related one by one are so by whatever follows from it for their members. -/
theorem forall₂_of_mem {α β : Type} {R S : α → β → Prop} {as : List α} {bs : List β}
    (related : List.Forall₂ R as bs) (each : ∀ a ∈ as, ∀ b ∈ bs, R a b → S a b) :
    List.Forall₂ S as bs := by
  obtain ⟨length, zipped⟩ := List.forall₂_iff_zip.mp related
  refine List.forall₂_iff_zip.mpr ⟨length, fun {a b} mem => ?_⟩
  have inside := List.of_mem_zip mem
  exact each a inside.1 b inside.2 (zipped mem)

/-! ## Symmetry and transitivity -/

namespace Value

/-- **What is like another has the other like it.** -/
theorem alike_symm {v w : Value} (distinct : v.NamesDistinct) (distinct' : w.NamesDistinct)
    (same : v.alike w) : w.alike v := by
  induction v using induct generalizing w with
  | scalar v isScalar => rwa [← alike_comm_of_isScalar isScalar]
  | node n ih =>
    obtain ⟨m, rfl, nodes⟩ := alike_node.mp same
    obtain ⟨kind, flags, line, length, found⟩ := Node.alike_iff.mp nodes
    obtain ⟨names, inside⟩ := Node.namesDistinct_iff.mp distinct
    obtain ⟨names', inside'⟩ := Node.namesDistinct_iff.mp distinct'
    refine alike_node.mpr ⟨n, rfl, Node.alike_iff.mpr
      ⟨kind.symm, flags.symm, line.symm, length.symm, fun name w mem => ?_⟩⟩
    obtain ⟨v, here⟩ := Named.mem_names.mp (Named.mem_names_of_length_eq names length
      (Named.names_subset_of_get? found) (Named.mem_names.mpr ⟨w, mem⟩))
    obtain ⟨w', there, same⟩ := found name v here
    obtain rfl : w = w' := Option.some.inj ((Named.get?_of_mem names' mem).symm.trans there)
    exact ⟨v, Named.get?_of_mem names here, ih name v here (inside name v here)
      (inside' name w mem) same⟩
  | list slots ih =>
    obtain ⟨others, rfl, slotwise⟩ := alike_list.mp same
    have inside := slotsNamesDistinct_iff.mp distinct
    have inside' := slotsNamesDistinct_iff.mp distinct'
    refine alike_list.mpr ⟨slots, rfl, .flip ?_⟩
    refine forall₂_of_mem slotwise fun slot mem other mem' rel => ?_
    cases rel with
    | none => exact .none
    | @some n m nodes =>
      refine .some ?_
      rw [← alike_node_node] at nodes ⊢
      exact ih n mem (inside n mem) (inside' m mem') nodes

theorem alike_trans {u v w : Value} (first : u.alike v) (second : v.alike w) : u.alike w := by
  induction u using induct generalizing v w with
  | scalar u isScalar =>
    rcases same_or_float isScalar first with rfl | ⟨x, y, rfl, rfl, same⟩
    · exact second
    rcases same_or_float rfl second with rfl | ⟨_, z, same', rfl, same''⟩
    · exact first
    · cases same'
      rw [alike]
      exact Binary64.sameNumber_trans same same''
  | node n ih =>
    obtain ⟨m, rfl, nodes⟩ := alike_node.mp first
    obtain ⟨k, rfl, nodes'⟩ := alike_node.mp second
    obtain ⟨kind, flags, line, length, found⟩ := Node.alike_iff.mp nodes
    obtain ⟨kind', flags', line', length', found'⟩ := Node.alike_iff.mp nodes'
    refine alike_node.mpr ⟨k, rfl, Node.alike_iff.mpr ⟨kind.trans kind', flags.trans flags',
      line.trans line', length.trans length', fun name u mem => ?_⟩⟩
    obtain ⟨v, there, same⟩ := found name u mem
    obtain ⟨w, there', same'⟩ := found' name v (Named.mem_of_get? there)
    exact ⟨w, there', ih name u mem same same'⟩
  | list slots ih =>
    obtain ⟨middle, rfl, slotwise⟩ := alike_list.mp first
    obtain ⟨others, rfl, slotwise'⟩ := alike_list.mp second
    refine alike_list.mpr ⟨others, rfl, ?_⟩
    clear first second
    induction slotwise generalizing others with
    | nil =>
      cases slotwise'
      exact .nil
    | @cons slot _ _ _ here _ later =>
      cases slotwise' with
      | cons there slotwise' =>
        refine .cons ?_ (later (fun n mem => ih n (List.mem_cons_of_mem slot mem)) _ slotwise')
        cases here with
        | none =>
          cases there
          exact .none
        | some nodes =>
          cases there with
          | some nodes' =>
            refine .some ?_
            rw [← alike_node_node] at nodes nodes' ⊢
            exact ih _ List.mem_cons_self nodes nodes'

end Value

/-! ## NaNs -/

/-- Under distinct names a child is compared with itself. -/
theorem Node.alike_self_iff {n : Node} (names : (Named.names n.children).Nodup) :
    n.alike n ↔ ∀ name v, (name, v) ∈ n.children → v.alike v := by
  simp only [alike_iff, true_and]
  refine forall₃_congr fun name v mem => ?_
  simp [child?, Named.get?_of_mem names mem]

theorem slotsAlike_self_iff {slots : List (Option Node)} :
    slotsAlike slots slots ↔ ∀ n, some n ∈ slots → n.alike n := by
  rw [slotsAlike_iff, List.forall₂_same, Option.forall]
  refine (and_iff_right fun _ => .none).trans (forall₂_congr fun n _ => ?_)
  constructor
  · rintro ⟨nodes⟩
    exact nodes
  · exact fun nodes => .some nodes

namespace Value

/-- **A tree is like itself exactly if there is no NaN in it.** -/
theorem alike_self_iff {v : Value} (distinct : v.NamesDistinct) :
    v.alike v ↔ ∀ x ∈ v.floats, x.isNaN = false := by
  induction v using induct with
  | scalar v isScalar =>
    cases v with
    | node n => cases isScalar
    | list slots => cases isScalar
    | _ => simp [alike, floats, Binary64.sameNumber_self]
  | node n ih =>
    obtain ⟨names, inside⟩ := Node.namesDistinct_iff.mp distinct
    rw [alike_node_node, Node.alike_self_iff names]
    obtain ⟨kind, flags, line, children⟩ := n
    simp only [floats, Node.floats, mem_childrenFloats]
    constructor
    · rintro all x ⟨name, v, mem, here⟩
      exact (ih name v mem (inside name v mem)).mp (all name v mem) x here
    · intro none name v mem
      exact (ih name v mem (inside name v mem)).mpr fun x here => none x ⟨name, v, mem, here⟩
  | list slots ih =>
    have inside := slotsNamesDistinct_iff.mp distinct
    rw [alike, slotsAlike_self_iff]
    simp only [floats, mem_slotsFloats]
    constructor
    · rintro all x ⟨n, mem, here⟩
      exact (ih n mem (inside n mem)).mp ((alike_node_node n n).trans (all n mem)) x here
    · intro none n mem
      rw [← alike_node_node]
      exact (ih n mem (inside n mem)).mpr fun x here => none x ⟨n, mem, here⟩

end Value

/-! ## The order of children -/

mutual

/-- The second node is the first with the children of one node in it in another order. -/
inductive Node.Reorders : Node → Node → Prop where
  | here {kind : Kind} {flags : Flags} {line : UInt32} {children others : Named Value}
      (order : children.Perm others) :
      Node.Reorders ⟨kind, flags, line, children⟩ ⟨kind, flags, line, others⟩
  | child {kind : Kind} {flags : Flags} {line : UInt32} (before : Named Value) (name : String)
      (after : Named Value) {v w : Value} (deeper : Value.Reorders v w) :
      Node.Reorders ⟨kind, flags, line, before ++ (name, v) :: after⟩
        ⟨kind, flags, line, before ++ (name, w) :: after⟩

/-- The second value is the first with the children of one node in it in another order. -/
inductive Value.Reorders : Value → Value → Prop where
  | node {n m : Node} (deeper : Node.Reorders n m) : Value.Reorders (.node n) (.node m)
  | slot (before after : List (Option Node)) {n m : Node} (deeper : Node.Reorders n m) :
      Value.Reorders (.list (before ++ some n :: after)) (.list (before ++ some m :: after))

end

theorem mem_append_cons {α : Type} {a b : α} {before after : List α} :
    a ∈ before ++ b :: after ↔ a = b ∨ a ∈ before ++ after :=
  List.perm_middle.mem_iff.trans List.mem_cons

mutual

/-- A node that is like itself is like what it is reordered to. -/
theorem Node.Reorders.alike {n m : Node} : n.Reorders m → n.NamesDistinct → n.alike n →
    n.alike m ∧ m.NamesDistinct
  | @Node.Reorders.here _ _ _ children others order, distinct, self => by
    obtain ⟨names, inside⟩ := Node.namesDistinct_iff.mp distinct
    have names' : (Named.names others).Nodup := (order.map _).nodup names
    have same := (Node.alike_self_iff names).mp self
    constructor
    · refine Node.alike_iff.mpr ⟨rfl, rfl, rfl, order.length_eq, fun name v mem => ?_⟩
      exact ⟨v, Named.get?_of_mem names' (order.subset mem), same name v mem⟩
    · exact Node.namesDistinct_iff.mpr
        ⟨names', fun name v mem => inside name v (order.symm.subset mem)⟩
  | .child before name after (v := v) (w := w) deeper, distinct, self => by
    obtain ⟨names, inside⟩ := Node.namesDistinct_iff.mp distinct
    have same := (Node.alike_self_iff names).mp self
    have open' : (name, v) ∈ before ++ (name, v) :: after := by simp
    obtain ⟨here, distinct'⟩ := deeper.alike (inside name v open') (same name v open')
    have names' : (Named.names (before ++ (name, w) :: after)).Nodup := by
      simpa [Named.names] using names
    constructor
    · refine Node.alike_iff.mpr ⟨rfl, rfl, rfl, by simp, fun key u mem => ?_⟩
      rcases mem_append_cons.mp mem with opened | other
      · cases opened
        exact ⟨w, Named.get?_of_mem names' (mem_append_cons.mpr (.inl rfl)), here⟩
      · exact ⟨u, Named.get?_of_mem names' (mem_append_cons.mpr (.inr other)), same key u mem⟩
    · refine Node.namesDistinct_iff.mpr ⟨names', fun key u mem => ?_⟩
      rcases mem_append_cons.mp mem with opened | other
      · cases opened
        exact distinct'
      · exact inside key u (mem_append_cons.mpr (.inr other))

/-- A value that is like itself is like what it is reordered to. -/
theorem Value.Reorders.alike {v w : Value} : v.Reorders w → v.NamesDistinct → v.alike v →
    v.alike w ∧ w.NamesDistinct
  | .node deeper, distinct, self => by
    rw [Value.alike_node_node] at self ⊢
    exact deeper.alike distinct self
  | .slot before after (n := n) (m := m) deeper, distinct, self => by
    have inside := slotsNamesDistinct_iff.mp distinct
    rw [Value.alike, slotsAlike_self_iff] at self
    obtain ⟨here, distinct'⟩ := deeper.alike (inside n (by simp)) (self n (by simp))
    constructor
    · rw [Value.alike, slotsAlike_iff]
      have same {around : List (Option Node)} (inside : around ⊆ before ++ after) :
          List.Forall₂ (Option.Rel fun n m : Node => n.alike m) around around := by
        refine slotsAlike_iff.mp (slotsAlike_self_iff.mpr fun k mem => self k ?_)
        exact mem_append_cons.mpr (.inr (inside mem))
      exact List.rel_append (same (List.subset_append_left before after))
        (.cons (.some here) (same (List.subset_append_right before after)))
    · refine slotsNamesDistinct_iff.mpr fun k mem => ?_
      rcases mem_append_cons.mp mem with opened | other
      · cases opened
        exact distinct'
      · exact inside k (mem_append_cons.mpr (.inr other))

end

/-- **The order of children does not matter**, for trees that are like themselves. -/
theorem Value.alike_of_reorders {v w : Value} (reordered : Relation.ReflTransGen Value.Reorders v w)
    (distinct : v.NamesDistinct) (self : v.alike v) : v.alike w ∧ w.NamesDistinct := by
  induction reordered with
  | refl => exact ⟨self, distinct⟩
  | tail _ step ih =>
    obtain ⟨same, distinct'⟩ := ih
    have self' := alike_trans (alike_symm distinct distinct' same) same
    obtain ⟨next, distinct''⟩ := step.alike distinct' self'
    exact ⟨alike_trans same next, distinct''⟩

/-! ## Main statement -/

/-- **Being alike is a partial equivalence that the order of children does not matter to**, between
values and between nodes. -/
theorem alike_partialEquivalence :
    (∀ v w : Value, v.NamesDistinct → w.NamesDistinct → (v.alike w ↔ w.alike v)) ∧
    (∀ u v w : Value, u.alike v → v.alike w → u.alike w) ∧
    (∀ v : Value, v.NamesDistinct → (v.alike v ↔ ∀ x ∈ v.floats, x.isNaN = false)) ∧
    (∀ v w : Value, v.NamesDistinct → (∀ x ∈ v.floats, x.isNaN = false) →
      Relation.ReflTransGen Value.Reorders v w → v.alike w) ∧
    (∀ n m : Node, n.NamesDistinct → m.NamesDistinct → (n.alike m ↔ m.alike n)) ∧
    (∀ n m k : Node, n.alike m → m.alike k → n.alike k) ∧
    (∀ n : Node, n.NamesDistinct → (n.alike n ↔ ∀ x ∈ n.floats, x.isNaN = false)) ∧
    (∀ n m : Node, n.NamesDistinct → (∀ x ∈ n.floats, x.isNaN = false) →
      Relation.ReflTransGen Node.Reorders n m → n.alike m) := by
  have symm (v w : Value) (distinct : v.NamesDistinct) (distinct' : w.NamesDistinct) :
      v.alike w ↔ w.alike v :=
    ⟨Value.alike_symm distinct distinct', Value.alike_symm distinct' distinct⟩
  have reordered (v w : Value) (distinct : v.NamesDistinct)
      (numbers : ∀ x ∈ v.floats, x.isNaN = false)
      (reordered : Relation.ReflTransGen Value.Reorders v w) : v.alike w :=
    (Value.alike_of_reorders reordered distinct ((Value.alike_self_iff distinct).mpr numbers)).1
  refine ⟨symm, fun _ _ _ => Value.alike_trans, fun _ => Value.alike_self_iff, reordered, ?_⟩
  simp only [← Value.alike_node_node]
  refine ⟨fun n m => symm (.node n) (.node m), fun _ _ _ => Value.alike_trans,
    fun n => Value.alike_self_iff (v := .node n), fun n m distinct numbers steps => ?_⟩
  exact reordered (.node n) (.node m) distinct numbers (steps.lift Value.node fun _ _ => .node)

/-- The children of a node and those of a node in a slot of it are in another order. -/
theorem alike_partialEquivalence_slot :
    let inner (children : Named Value) : String × Value :=
      ("slots", .list [none, some ⟨.name, .zero, 0, children⟩])
    let zero : String × Value := ("zero", .float (.ofInt 0))
    let n : Node := ⟨.array, .zero, 3, [inner [zero, ("null", .null)], ("s", .string "t")]⟩
    let m : Node := ⟨.array, .zero, 3, [("s", .string "t"), inner [("null", .null), zero]]⟩
    let nan : Value := .float ⟨0x7FF8000000000000⟩
    n.NamesDistinct ∧ m.NamesDistinct ∧ (∀ x ∈ n.floats, x.isNaN = false) ∧
      Relation.ReflTransGen Node.Reorders n m ∧ n.alike m ∧ m.alike n ∧ n.alike n ∧
      nan.NamesDistinct ∧ ¬ nan.alike nan := by
  intro inner zero n m nan
  have distinct : n.NamesDistinct :=
    ⟨by decide, ⟨⟨by decide, trivial, trivial, trivial⟩, trivial⟩, trivial, trivial⟩
  have distinct' : m.NamesDistinct :=
    ⟨by decide, trivial, ⟨⟨by decide, trivial, trivial, trivial⟩, trivial⟩, trivial⟩
  have numbers : ∀ x ∈ n.floats, x.isNaN = false := by decide +kernel
  have deeper : (inner [zero, ("null", .null)]).2.Reorders (inner [("null", .null), zero]).2 :=
    .slot [none] [] (.here (.swap ..))
  have reordered : Relation.ReflTransGen Node.Reorders n m :=
    .tail (.single (.child [] "slots" [("s", .string "t")] deeper)) (.here (.swap ..))
  obtain ⟨_, _, self, _, symm, trans, _, order⟩ := alike_partialEquivalence
  have same : n.alike m := order n m distinct numbers reordered
  have same' : m.alike n := (symm n m distinct distinct').mp same
  refine ⟨distinct, distinct', numbers, reordered, same, same', trans n m n same same', trivial,
    fun alike => ?_⟩
  exact absurd ((self nan trivial).mp alike _ (List.mem_singleton.mpr rfl)) (by decide +kernel)

end ShortForm
