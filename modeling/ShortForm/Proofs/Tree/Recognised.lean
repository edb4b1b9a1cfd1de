import ShortForm.Proofs.Json.Spelled
import ShortForm.Proofs.Named
import ShortForm.Proofs.Tree.Kept
import ShortForm.Proofs.Tree.OfJson

/-!
# What recognised trees are made of

The parts of a recognised tree are recognised in the parts of the JSON value: the children of a
node in an object that is a part of the node's value (`Node.children_of_ofJson?`), each child in a
part of that object (`childrenOf?_induct`), and the nodes of a list in the items of an array
(`slotsOf?_cons`). What holds of every recognised tree is proved along these steps: the names of
the children of a node are distinct (`Value.namesDistinct_of_ofJson?`), and written again the tree
has brackets nested at most one deeper than those it was recognised in
(`Value.nesting_toJson_le`).
-/

namespace ShortForm

namespace Json

/-- The values directly in a value. -/
def parts : Json → List Json
  | .array items => items
  | .object members => members.map (·.2)
  | _ => []

/-- What holds of a value if it holds of its parts holds of every value. -/
theorem induct_parts {P : Json → Prop} (step : ∀ j, (∀ k ∈ j.parts, P k) → P j) (j : Json) :
    P j := by
  induction j using induct with
  | null => exact step _ fun _ never => by cases never
  | bool b => exact step _ fun _ never => by cases never
  | number n => exact step _ fun _ never => by cases never
  | string s => exact step _ fun _ never => by cases never
  | array items ih => exact step _ ih
  | object members ih =>
    refine step _ fun k mem => ?_
    obtain ⟨m, here, rfl⟩ := List.mem_map.mp mem
    exact ih m here

theorem le_itemsNesting {j : Json} {items : List Json} (mem : j ∈ items) :
    j.nesting ≤ itemsNesting items := by
  induction items with
  | nil => cases mem
  | cons k items ih =>
    rw [itemsNesting]
    rcases List.mem_cons.mp mem with rfl | mem
    · exact Nat.le_max_left _ _
    · exact Nat.le_trans (ih mem) (Nat.le_max_right _ _)

theorem le_membersNesting {m : String × Json} {members : List (String × Json)}
    (mem : m ∈ members) : m.2.nesting ≤ membersNesting members := by
  induction members with
  | nil => cases mem
  | cons k members ih =>
    rw [membersNesting]
    rcases List.mem_cons.mp mem with rfl | mem
    · exact Nat.le_max_left _ _
    · exact Nat.le_trans (ih mem) (Nat.le_max_right _ _)

/-- A value is nested deeper than its parts. -/
theorem nesting_lt_of_mem_parts {j k : Json} (mem : k ∈ j.parts) : k.nesting < j.nesting := by
  cases j with
  | array items => exact Nat.lt_succ_of_le (le_itemsNesting mem)
  | object members =>
    obtain ⟨m, here, rfl⟩ := List.mem_map.mp mem
    exact Nat.lt_succ_of_le (le_membersNesting here)
  | _ => cases mem

end Json

open Json

/-! ## Where parts come from -/

/-- A member adds no children, or the ones that its value holds. -/
theorem Fields.children_of_addMember? {fields fields' : Fields} {m : String × Json}
    (added : fields.addMember? m = some fields') :
    fields'.children = fields.children ∨ fields'.children = childrenOf? m.2 := by
  unfold addMember? at added
  split at added
  · cases added
    exact .inl rfl
  split at added
  · cases added
  rename_i field _ _
  cases field with
  | children =>
    obtain ⟨children, held, rfl⟩ := Option.map_eq_some_iff.mp added
    exact .inr held.symm
  | kind | flags | line =>
    obtain ⟨_, _, rfl⟩ := Option.map_eq_some_iff.mp added
    exact .inl rfl

/-- The children among the fields are those that were known before, or that a member holds. -/
theorem Fields.children_of_foldlM {members : List (String × Json)} {fields fields' : Fields}
    (added : members.foldlM addMember? fields = some fields') :
    fields'.children = fields.children ∨ ∃ m ∈ members, fields'.children = childrenOf? m.2 := by
  induction members generalizing fields with
  | nil =>
    cases added
    exact .inl rfl
  | cons m members ih =>
    rw [List.foldlM_cons] at added
    obtain ⟨middle, first, added⟩ := Option.bind_eq_some_iff.mp added
    rcases ih added with same | ⟨m', mem, held⟩
    · rw [same]
      refine (children_of_addMember? first).imp_right fun held => ?_
      exact ⟨m, List.mem_cons_self, held⟩
    · exact .inr ⟨m', List.mem_cons_of_mem m mem, held⟩

/-- A node has no children, or those that a part of its value holds. -/
theorem Node.children_of_ofJson? {j : Json} {n : Node} (recognised : Node.ofJson? j = some n) :
    n.children = [] ∨ ∃ k ∈ j.parts, childrenOf? k = some n.children := by
  cases j with
  | object members =>
    rw [Node.ofJson?, fieldsOf?_eq_foldlM] at recognised
    obtain ⟨fields, added, whole⟩ := Option.bind_eq_some_iff.mp recognised
    obtain ⟨kind, _, rfl⟩ := Option.map_eq_some_iff.mp whole
    simp only
    rcases Fields.children_of_foldlM added with none | ⟨m, mem, held⟩
    · rw [none]
      exact .inl rfl
    · cases known : fields.children with
      | none => exact .inl rfl
      | some children => exact .inr ⟨m.2, List.mem_map_of_mem mem, held.symm.trans known⟩
  | array items =>
    rw [Node.ofJson?] at recognised
    unfold nodeOfItems? at recognised
    split at recognised
    case h_1 =>
      obtain ⟨_, _, whole⟩ := Option.bind_eq_some_iff.mp recognised
      cases whole
      exact .inl rfl
    case h_2 =>
      obtain ⟨_, _, recognised⟩ := Option.bind_eq_some_iff.mp recognised
      obtain ⟨_, _, whole⟩ := Option.bind_eq_some_iff.mp recognised
      cases whole
      exact .inl rfl
    case h_3 =>
      obtain ⟨_, _, recognised⟩ := Option.bind_eq_some_iff.mp recognised
      obtain ⟨_, _, recognised⟩ := Option.bind_eq_some_iff.mp recognised
      obtain ⟨_, _, whole⟩ := Option.bind_eq_some_iff.mp recognised
      cases whole
      exact .inl rfl
    case h_4 =>
      obtain ⟨_, _, recognised⟩ := Option.bind_eq_some_iff.mp recognised
      obtain ⟨_, _, recognised⟩ := Option.bind_eq_some_iff.mp recognised
      obtain ⟨_, _, recognised⟩ := Option.bind_eq_some_iff.mp recognised
      obtain ⟨children, held, whole⟩ := Option.bind_eq_some_iff.mp recognised
      cases whole
      exact .inr ⟨_, by simp [parts], held⟩
    case h_5 => cases recognised
  | _ => cases recognised

/-- What holds of no children, and stays when one is put in that a part of the object is, holds of
the children that the object holds. -/
theorem childrenOf?_induct {P : Named Value → Prop} {j : Json} (nil : P [])
    (put : ∀ children name v, ∀ k ∈ j.parts, Value.ofJson? k = some v → P children →
      P (children.put name v))
    {children : Named Value} (held : childrenOf? j = some children) : P children := by
  cases j with
  | object members =>
    rw [childrenOf?, childrenOfMembers?_eq_foldlM] at held
    have each : ∀ m ∈ members, m.2 ∈ (Json.object members).parts :=
      fun m mem => List.mem_map_of_mem mem
    generalize (Json.object members).parts = parts at put each
    generalize ([] : Named Value) = before at nil held
    induction members generalizing before with
    | nil =>
      cases held
      exact nil
    | cons m members ih =>
      rw [List.foldlM_cons] at held
      obtain ⟨middle, first, held⟩ := Option.bind_eq_some_iff.mp held
      obtain ⟨v, recognised, rfl⟩ := Option.map_eq_some_iff.mp first
      exact ih (fun m' mem => each m' (List.mem_cons_of_mem m mem)) _
        (put before m.1 v m.2 (each m List.mem_cons_self) recognised nil) held
  | _ => cases held

/-- A list of slots is recognised in an array. -/
theorem Value.ofJson?_eq_list {j : Json} {slots : List (Option Node)}
    (recognised : Value.ofJson? j = some (.list slots)) :
    ∃ items, j = .array items ∧ slotsOf? items = some slots := by
  cases j with
  | array items =>
    refine ⟨items, rfl, ?_⟩
    rw [Value.ofJson?] at recognised
    split at recognised
    · cases recognised
    · obtain ⟨_, found, same⟩ := Option.map_eq_some_iff.mp recognised
      cases same
      exact found
  | number n =>
    have scalar : Value.ofNumber n = .list slots := Option.some.inj recognised
    unfold Value.ofNumber at scalar
    split at scalar
    · split at scalar <;> cases scalar
    · cases scalar
  | object members =>
    rw [Value.ofJson?] at recognised
    obtain ⟨_, _, never⟩ := Option.map_eq_some_iff.mp recognised
    cases never
  | _ => cases recognised

/-- The slots of a list are recognised one by one. -/
theorem slotsOf?_cons {j : Json} {items : List Json} {slots : List (Option Node)}
    (recognised : slotsOf? (j :: items) = some slots) :
    ∃ slot rest, slots = slot :: rest ∧ slotOf? j = some slot ∧ slotsOf? items = some rest := by
  rw [slotsOf?_eq_mapM, List.mapM_cons] at recognised
  obtain ⟨slot, first, recognised⟩ := Option.bind_eq_some_iff.mp recognised
  obtain ⟨rest, later, whole⟩ := Option.bind_eq_some_iff.mp recognised
  cases whole
  exact ⟨slot, rest, rfl, first, (slotsOf?_eq_mapM items).trans later⟩

/-- The node of a slot is recognised in the item. -/
theorem slotOf?_eq_node {j : Json} {n : Node} (recognised : slotOf? j = some (some n)) :
    Node.ofJson? j = some n := by
  unfold slotOf? at recognised
  split at recognised
  · cases recognised
  · obtain ⟨_, node, same⟩ := Option.map_eq_some_iff.mp recognised
    cases same
    exact node

/-! ## Names -/

/-- A value that is put in takes the place of another, or comes last. -/
theorem ChildrenNamesDistinct.put {children : Named Value} (inside : ChildrenNamesDistinct children)
    (name : String) {v : Value} (distinct : v.NamesDistinct) :
    ChildrenNamesDistinct (children.put name v) := by
  induction children with
  | nil => exact ⟨distinct, trivial⟩
  | cons child children ih =>
    obtain ⟨k, w⟩ := child
    obtain ⟨here, later⟩ := inside
    rw [Named.put]
    split
    · exact ⟨distinct, later⟩
    · exact ⟨here, ih later⟩

theorem slotsNamesDistinct_of_slotsOf? {items : List Json} {slots : List (Option Node)}
    (each : ∀ j ∈ items, ∀ n, Node.ofJson? j = some n → n.NamesDistinct)
    (recognised : slotsOf? items = some slots) : SlotsNamesDistinct slots := by
  induction items generalizing slots with
  | nil =>
    cases recognised
    trivial
  | cons j items ih =>
    obtain ⟨slot, rest, rfl, first, later⟩ := slotsOf?_cons recognised
    have inside := ih (fun k mem => each k (List.mem_cons_of_mem j mem)) later
    cases slot with
    | none => exact inside
    | some n => exact ⟨each j List.mem_cons_self n (slotOf?_eq_node first), inside⟩

/-- **In a recognised tree the names of the children of each node are distinct**, because a child is
put in under its name. -/
theorem Value.namesDistinct_of_ofJson? (j : Json) :
    ∀ v, Value.ofJson? j = some v → v.NamesDistinct := by
  -- Of the object that holds children the same is claimed of them.
  suffices both : (∀ v, Value.ofJson? j = some v → v.NamesDistinct) ∧
      ∀ children, childrenOf? j = some children →
        (Named.names children).Nodup ∧ ChildrenNamesDistinct children from both.1
  induction j using induct_parts with
  | step j ih =>
    refine ⟨fun v recognised => ?_, fun children held => ?_⟩
    · cases v with
      | node n =>
        have node := Value.ofJson?_eq_node.mp recognised
        obtain ⟨kind, flags, line, children⟩ := n
        rcases Node.children_of_ofJson? node with none | ⟨k, mem, held⟩
        · cases none
          exact ⟨List.nodup_nil, trivial⟩
        · exact (ih k mem).2 _ held
      | list slots =>
        obtain ⟨items, rfl, found⟩ := Value.ofJson?_eq_list recognised
        exact slotsNamesDistinct_of_slotsOf? (fun k mem n node =>
          (ih k mem).1 (.node n) (Value.ofJson?_eq_node.mpr node)) found
      | _ => trivial
    · refine childrenOf?_induct (P := fun children => (Named.names children).Nodup ∧
        ChildrenNamesDistinct children) ⟨List.nodup_nil, trivial⟩ ?_ held
      intro children name v k mem recognised before
      exact ⟨Named.nodup_names_put name v before.1,
        before.2.put name ((ih k mem).1 v recognised)⟩

/-! ## Nesting -/

/-- A node is written with the brackets of its object and of the object of its children. -/
theorem Node.nesting_toJson (n : Node) :
    n.toJson.nesting = membersNesting (childrenToJson n.children) + 1 + 1 := by
  obtain ⟨kind, flags, line, children⟩ := n
  simp [toJson, nesting, membersNesting, Json.ofWord]

/-- Where a value is put in, the nesting grows to that of the value at most. -/
theorem membersNesting_put (children : Named Value) (name : String) (v : Value) :
    membersNesting (childrenToJson (children.put name v)) ≤
      max (membersNesting (childrenToJson children)) v.toJson.nesting := by
  induction children with
  | nil => simp [Named.put, childrenToJson, membersNesting]
  | cons child children ih =>
    obtain ⟨k, w⟩ := child
    rw [Named.put]
    split
    · simp only [childrenToJson, membersNesting]
      omega
    · simp only [childrenToJson, membersNesting]
      omega

theorem itemsNesting_slotsToJson_le {items : List Json} {slots : List (Option Node)}
    (each : ∀ j ∈ items, ∀ n, Node.ofJson? j = some n → n.toJson.nesting ≤ j.nesting + 1)
    (recognised : slotsOf? items = some slots) :
    itemsNesting (slotsToJson slots) ≤ itemsNesting items + 1 := by
  induction items generalizing slots with
  | nil =>
    cases recognised
    exact Nat.zero_le _
  | cons j items ih =>
    obtain ⟨slot, rest, rfl, first, later⟩ := slotsOf?_cons recognised
    have inside := ih (fun k mem => each k (List.mem_cons_of_mem j mem)) later
    cases slot with
    | none =>
      simp only [slotsToJson, itemsNesting, nesting]
      omega
    | some n =>
      have here := each j List.mem_cons_self n (slotOf?_eq_node first)
      simp only [slotsToJson, itemsNesting]
      omega

/-- **Written again, a recognised tree has brackets nested at most one deeper** than those of the
JSON value: a node is written with its children even if it has none. -/
theorem Value.nesting_toJson_le (j : Json) :
    ∀ v, Value.ofJson? j = some v → v.toJson.nesting ≤ j.nesting + 1 := by
  -- The object that holds children is written with the same bracket.
  suffices both : (∀ v, Value.ofJson? j = some v → v.toJson.nesting ≤ j.nesting + 1) ∧
      ∀ children, childrenOf? j = some children →
        membersNesting (childrenToJson children) ≤ j.nesting from both.1
  induction j using induct_parts with
  | step j ih =>
    refine ⟨fun v recognised => ?_, fun children held => ?_⟩
    · cases v with
      | node n =>
        have node := Value.ofJson?_eq_node.mp recognised
        rw [Value.toJson, Node.nesting_toJson]
        rcases Node.children_of_ofJson? node with none | ⟨k, mem, held⟩
        · have bracket : 0 < j.nesting := by
            cases j <;> first | exact Nat.succ_pos _ | cases node
          rw [none, childrenToJson, membersNesting]
          omega
        · have inside := (ih k mem).2 _ held
          have deeper := nesting_lt_of_mem_parts mem
          omega
      | list slots =>
        obtain ⟨items, rfl, found⟩ := Value.ofJson?_eq_list recognised
        have inside : itemsNesting (slotsToJson slots) ≤ itemsNesting items + 1 :=
          itemsNesting_slotsToJson_le (fun k mem n node =>
            (ih k mem).1 (.node n) (Value.ofJson?_eq_node.mpr node)) found
        rw [Value.toJson, nesting, nesting]
        omega
      | float x =>
        rw [Value.toJson]
        split <;> exact Nat.zero_le _
      | _ => exact Nat.zero_le _
    · refine childrenOf?_induct
        (P := fun children => membersNesting (childrenToJson children) ≤ j.nesting)
        (Nat.zero_le _) ?_ held
      intro children name v k mem recognised before
      have grows := membersNesting_put children name v
      have value := (ih k mem).1 v recognised
      have deeper := nesting_lt_of_mem_parts mem
      omega

end ShortForm
