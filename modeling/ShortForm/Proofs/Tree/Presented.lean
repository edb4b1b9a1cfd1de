import ShortForm.Proofs.Named
import ShortForm.Proofs.Tree.RoundTrip
import ShortForm.Proofs.Tree.Shape
import ShortForm.Proofs.Tree.Spelled

/-!
# Presentations of a tree

A tree can be written down in many ways. A node may be an object, with its fields in any order and
other members among them, or an array of its fields; a field that has its default may be left out,
in an array only behind all that are there. Any tag that is not listed stands for the kind
`unknown`. Each node of a tree can be written in its own way, and around tokens there may be blanks.

`Node.PresentedBy` says which JSON values present a node, and a text presents it when it spells one
of them (`Node.PresentedIn`). Whatever presents a tree holds that tree (`ofText_presented`), and the
text of a tree is one of its presentations (`Node.presentedIn_text`). Doubles have no presentation
here: they are not read exactly.
-/

namespace ShortForm

open Json

/-! ## The presentations -/

/-- The tag stands for the kind: it is its own, or for `unknown` one that is not listed. -/
def Kind.HasTag (kind : Kind) (tag : String) : Prop :=
  tag = kind.tag ∨ kind = .unknown ∧ ∀ other ∈ Kind.listed, tag ≠ other.tag

/-- The field has the value that is meant when it is left out. A kind is never left out. -/
def Node.IsDefault (n : Node) : Field → Prop
  | .kind => False
  | .flags => n.flags = .zero
  | .line => n.line = 0
  | .children => n.children = []

mutual

/-- The JSON value presents the node. -/
inductive Node.PresentedBy : Node → Json → Prop where
  /-- Members with other names than those of the fields are free. -/
  | object {n : Node} {members : List (String × Json)} :
      (∀ field : Field, (members.map (·.1)).count field.name ≤ 1) →
      (∀ field j, (Field.name field, j) ∈ members → FieldPresentedBy n field j) →
      (∀ field : Field, field.name ∉ members.map (·.1) → n.IsDefault field) →
      Node.PresentedBy n (.object members)
  | array {n : Node} {items : List Json} : items.length ≤ 4 →
      (∀ field j, (field, j) ∈ Field.all.zip items → FieldPresentedBy n field j) →
      (∀ field ∈ Field.all.drop items.length, n.IsDefault field) →
      Node.PresentedBy n (.array items)

/-- The JSON value presents a field of the node. -/
inductive FieldPresentedBy : Node → Field → Json → Prop where
  | kind {n : Node} {tag : String} : n.kind.HasTag tag → FieldPresentedBy n .kind (.string tag)
  | flags (n : Node) : FieldPresentedBy n .flags (.ofWord n.flags.bits)
  | line (n : Node) : FieldPresentedBy n .line (.ofWord n.line)
  | children {n : Node} {members : List (String × Json)} :
      ChildrenPresentedBy n.children members → FieldPresentedBy n .children (.object members)

/-- The members present the children in their order. -/
inductive ChildrenPresentedBy : List (String × Value) → List (String × Json) → Prop where
  | nil : ChildrenPresentedBy [] []
  | cons {name : String} {v : Value} {j : Json} {children : List (String × Value)}
      {members : List (String × Json)} : Value.PresentedBy v j →
      ChildrenPresentedBy children members →
      ChildrenPresentedBy ((name, v) :: children) ((name, j) :: members)

/-- The JSON value presents the value. -/
inductive Value.PresentedBy : Value → Json → Prop where
  | null : Value.PresentedBy .null .null
  | bool (b : Bool) : Value.PresentedBy (.bool b) (.bool b)
  | int (n : Int64) : Value.PresentedBy (.int n) (.number (.int n.toInt))
  | string (s : String) : Value.PresentedBy (.string s) (.string s)
  | node {n : Node} {j : Json} : Node.PresentedBy n j → Value.PresentedBy (.node n) j
  | list {slots : List (Option Node)} {items : List Json} : SlotsPresentedBy slots items →
      Value.PresentedBy (.list slots) (.array items)

/-- The items present the slots in their order. -/
inductive SlotsPresentedBy : List (Option Node) → List Json → Prop where
  | nil : SlotsPresentedBy [] []
  | empty {slots : List (Option Node)} {items : List Json} : SlotsPresentedBy slots items →
      SlotsPresentedBy (none :: slots) (.null :: items)
  | node {n : Node} {j : Json} {slots : List (Option Node)} {items : List Json} :
      Node.PresentedBy n j → SlotsPresentedBy slots items →
      SlotsPresentedBy (some n :: slots) (j :: items)

end

/-- The text presents the node: it spells a JSON value that does. -/
def Node.PresentedIn (n : Node) (text : String) : Prop :=
  ∃ j, n.PresentedBy j ∧ j.SpelledIn text

/-! ## Fields -/

/-- A tag that stands for a kind is read as it. -/
theorem Kind.HasTag.ofTag {kind : Kind} {tag : String} (has : kind.HasTag tag) :
    Kind.ofTag tag = kind := by
  rcases has with rfl | ⟨rfl, unlisted⟩
  · exact Kind.ofTag_tag kind
  · have none : Kind.ofTag? tag = none := by
      refine List.find?_eq_none.mpr fun other mem same => ?_
      exact unlisted other mem (beq_iff_eq.mp same).symm
    rw [Kind.ofTag, none]
    rfl

/-- A tag stands for the kind that it is read as. -/
theorem Kind.hasTag_ofTag (tag : String) : (Kind.ofTag tag).HasTag tag := by
  cases found : Kind.ofTag? tag with
  | none =>
    have unlisted : ∀ other ∈ Kind.listed, tag ≠ other.tag := fun other mem same =>
      List.find?_eq_none.mp found other mem (beq_iff_eq.mpr same.symm)
    exact .inr ⟨by rw [Kind.ofTag, found]; rfl, unlisted⟩
  | some kind =>
    rw [Kind.ofTag, found]
    exact .inl (Kind.tag_of_ofTag? found).symm

/-- The JSON value is recognised as this field of the node. -/
def Node.HasField (n : Node) : Field → Json → Prop
  | .kind, j => j.kind? = some n.kind
  | .flags, j => j.word? = some n.flags.bits
  | .line, j => j.word? = some n.line
  | .children, j => childrenOf? j = some n.children

namespace Fields

variable {n : Node} {fields : Fields}

/-- What is known so far are fields of the node. -/
structure Agrees (fields : Fields) (n : Node) : Prop where
  kind : ∀ kind ∈ fields.kind, kind = n.kind
  flags : ∀ bits ∈ fields.flags, bits = n.flags.bits
  line : ∀ line ∈ fields.line, line = n.line
  children : ∀ children ∈ fields.children, children = n.children

/-- A field of the node can be added. -/
theorem Agrees.add? (agrees : fields.Agrees n) {field : Field} {j : Json}
    (has : n.HasField field j) :
    ∃ fields', fields.add? field j = some fields' ∧ fields'.Agrees n := by
  obtain ⟨kind, flags, line, children⟩ := agrees
  cases field with
  | kind =>
    refine ⟨{ fields with kind := some n.kind }, congrArg (Option.map _) has, ?_⟩
    exact ⟨fun _ known => (Option.some.inj known).symm, flags, line, children⟩
  | flags =>
    refine ⟨{ fields with flags := some n.flags.bits }, congrArg (Option.map _) has, ?_⟩
    exact ⟨kind, fun _ known => (Option.some.inj known).symm, line, children⟩
  | line =>
    refine ⟨{ fields with line := some n.line }, congrArg (Option.map _) has, ?_⟩
    exact ⟨kind, flags, fun _ known => (Option.some.inj known).symm, children⟩
  | children =>
    refine ⟨{ fields with children := some n.children }, congrArg (Option.map _) has, ?_⟩
    exact ⟨kind, flags, line, fun _ known => (Option.some.inj known).symm⟩

/-- Members among which the fields of the node stand once, if at all, are gone through, and what is
known stays the node's. -/
theorem Agrees.foldlM_addMember? {members : List (String × Json)} (agrees : fields.Agrees n)
    (single : ∀ field, (fields.has field).toNat + (members.map (·.1)).count field.name ≤ 1)
    (each : ∀ field j, (Field.name field, j) ∈ members → n.HasField field j) :
    ∃ fields', members.foldlM addMember? fields = some fields' ∧ fields'.Agrees n := by
  induction members generalizing fields with
  | nil => exact ⟨fields, rfl, agrees⟩
  | cons m members ih =>
    obtain ⟨name, j⟩ := m
    have later : ∀ field j, (Field.name field, j) ∈ members → n.HasField field j :=
      fun field j mem => each field j (List.mem_cons_of_mem _ mem)
    obtain ⟨middle, added, agrees⟩ :
        ∃ middle, fields.addMember? (name, j) = some middle ∧ middle.Agrees n := by
      cases known : Field.ofName? name with
      | none => exact ⟨fields, addMember?_of_none known fields j, agrees⟩
      | some field =>
        obtain rfl := Field.ofName?_eq_some.mp known
        have new : ¬ fields.has field := by
          intro has
          have twice := single field
          rw [has, List.map_cons, List.count_cons_self, Bool.toNat_true] at twice
          omega
        rw [addMember?_name, if_neg new]
        exact agrees.add? (each field j List.mem_cons_self)
    rw [List.foldlM_cons, added]
    refine ih agrees (fun field => ?_) later
    have count := single field
    rw [List.map_cons, List.count_cons] at count
    rw [count_of_addMember? added]
    simp only [beq_iff_eq] at count ⊢
    omega

/-- What is known is all of the node, if the rest of its fields are as when left out. -/
theorem Agrees.node? (agrees : fields.Agrees n)
    (left : ∀ field, fields.has field = false → n.IsDefault field) : fields.node? = some n := by
  have flags : fields.flags.getD 0 = n.flags.bits := by
    cases known : fields.flags with
    | none =>
      have zero : n.flags = .zero := left .flags (by rw [has, known]; rfl)
      rw [zero]
      rfl
    | some bits => exact agrees.flags bits known
  have line : fields.line.getD 0 = n.line := by
    cases known : fields.line with
    | none =>
      have zero : n.line = 0 := left .line (by rw [has, known]; rfl)
      rw [zero]
      rfl
    | some line => exact agrees.line line known
  have children : fields.children.getD [] = n.children := by
    cases known : fields.children with
    | none =>
      have nothing : n.children = [] := left .children (by rw [has, known]; rfl)
      rw [nothing]
      rfl
    | some children => exact agrees.children children known
  cases known : fields.kind with
  | none => exact (left .kind (by rw [has, known]; rfl)).elim
  | some kind =>
    rw [Fields.node?, known, flags, line, children, agrees.kind kind known]
    cases n
    rfl

end Fields

namespace Node

variable {n : Node}

/-- An object with the fields of a node is recognised as the node. -/
theorem ofJson?_of_members {members : List (String × Json)}
    (single : ∀ field : Field, (members.map (·.1)).count field.name ≤ 1)
    (each : ∀ field j, (Field.name field, j) ∈ members → n.HasField field j)
    (left : ∀ field : Field, field.name ∉ members.map (·.1) → n.IsDefault field) :
    Node.ofJson? (.object members) = some n := by
  have none : ∀ field, Fields.has {} field = false := fun field => by cases field <;> rfl
  have nothing : Fields.Agrees {} n := by
    constructor <;> intro _ known <;> cases known
  obtain ⟨fields, added, agrees⟩ := nothing.foldlM_addMember?
    (fun field => by rw [none, Bool.toNat_false, Nat.zero_add]; exact single field) each
  rw [Node.ofJson?, fieldsOf?_eq_foldlM, added]
  refine agrees.node? fun field absent => left field fun mem => ?_
  have count := Fields.count_of_foldlM_addMember? added field
  rw [absent, none, Bool.toNat_false, Nat.zero_add] at count
  exact Nat.ne_of_gt (List.count_pos_iff.mpr mem) count.symm

/-- An array with the fields of a node in their order is recognised as the node. -/
theorem nodeOfItems?_of_items {items : List Json} (short : items.length ≤ 4)
    (each : ∀ field j, (field, j) ∈ Field.all.zip items → n.HasField field j)
    (left : ∀ field ∈ Field.all.drop items.length, n.IsDefault field) :
    nodeOfItems? items = some n := by
  have kind : ∀ j, n.HasField .kind j → j.kind? = some n.kind := fun _ has => has
  have flags : ∀ j, n.HasField .flags j → j.word? = some n.flags.bits := fun _ has => has
  have line : ∀ j, n.HasField .line j → j.word? = some n.line := fun _ has => has
  have children : ∀ j, n.HasField .children j → childrenOf? j = some n.children :=
    fun _ has => has
  obtain ⟨nKind, nFlags, nLine, nChildren⟩ := n
  match items with
  | [] => exact (left .kind (by decide)).elim
  | [a] =>
    obtain rfl : nFlags = .zero := left .flags (by simp [Field.all])
    obtain rfl : nLine = 0 := left .line (by simp [Field.all])
    obtain rfl : nChildren = [] := left .children (by simp [Field.all])
    simp [nodeOfItems?, kind a (each _ _ (by simp [Field.all]))]
  | [a, b] =>
    obtain rfl : nLine = 0 := left .line (by simp [Field.all])
    obtain rfl : nChildren = [] := left .children (by simp [Field.all])
    simp [nodeOfItems?, kind a (each _ _ (by simp [Field.all])),
      flags b (each _ _ (by simp [Field.all]))]
  | [a, b, c] =>
    obtain rfl : nChildren = [] := left .children (by simp [Field.all])
    simp [nodeOfItems?, kind a (each _ _ (by simp [Field.all])),
      flags b (each _ _ (by simp [Field.all])), line c (each _ _ (by simp [Field.all]))]
  | [a, b, c, d] =>
    simp [nodeOfItems?, kind a (each _ _ (by simp [Field.all])),
      flags b (each _ _ (by simp [Field.all])), line c (each _ _ (by simp [Field.all])),
      children d (each _ _ (by simp [Field.all]))]
  | _ :: _ :: _ :: _ :: _ :: _ =>
    simp only [List.length_cons] at short
    omega

end Node

mutual

/-- **What presents a node is recognised as that node.** -/
theorem Node.PresentedBy.ofJson? : (n : Node) → {j : Json} → n.PresentedBy j → n.NamesDistinct →
    Node.ofJson? j = some n
  | ⟨kind, flags, line, children⟩, j, presented, ⟨distinct, inside⟩ => by
    have each : ∀ field j, FieldPresentedBy ⟨kind, flags, line, children⟩ field j →
        Node.HasField ⟨kind, flags, line, children⟩ field j := by
      rintro field j (tag | _ | _ | listed)
      · exact congrArg some tag.ofTag
      · exact Json.word?_ofWord _
      · exact Json.word?_ofWord _
      · have put := childrenOfMembers?_of_isChild
          (ChildrenPresentedBy.isChild children listed inside) []
        rwa [Named.putAll_of_nodup distinct] at put
    cases presented with
    | object single fields left =>
      exact Node.ofJson?_of_members single (fun field j mem => each field j (fields field j mem))
        left
    | array short fields left =>
      exact Node.nodeOfItems?_of_items short (fun field j mem => each field j (fields field j mem))
        left

/-- Members that present children are recognised as them. -/
theorem ChildrenPresentedBy.isChild : (children : List (String × Value)) →
    {members : List (String × Json)} → ChildrenPresentedBy children members →
    ChildrenNamesDistinct children → List.Forall₂ IsChild children members
  | [], _, .nil, _ => .nil
  | (_, v) :: children, _, .cons here listed, ⟨inside, insideRest⟩ =>
    .cons ⟨rfl, Value.PresentedBy.ofJson? v here inside⟩
      (ChildrenPresentedBy.isChild children listed insideRest)

/-- **What presents a value is recognised as that value.** An array that presents a list is not
taken for a node: its first item is no string. -/
theorem Value.PresentedBy.ofJson? : (v : Value) → {j : Json} → v.PresentedBy j → v.NamesDistinct →
    Value.ofJson? j = some v
  | _, _, .null, _ => rfl
  | _, _, .bool _, _ => rfl
  | _, _, .int n, _ => by
    have fits : n.toInt < 0x8000000000000000 := n.toInt_lt
    simp only [Value.ofJson?, Value.ofNumber, fits, if_true, Int64.ofInt_toInt]
  | _, _, .string _, _ => rfl
  | .node n, _, .node presented, distinct =>
    Value.ofJson?_eq_node.mpr (Node.PresentedBy.ofJson? n presented distinct)
  | .list slots, _, .list listed, distinct => by
    have recognised := SlotsPresentedBy.slotsOf? slots listed distinct
    -- Otherwise the items would be no slots.
    have other : nodeOfItems? _ = none := Option.eq_none_iff_forall_ne_some.mpr fun n node => by
      rw [slotsOf?_of_nodeOfItems? node] at recognised
      cases recognised
    rw [Value.ofJson?, other, recognised]
    rfl

/-- Items that present slots are recognised in their places. -/
theorem SlotsPresentedBy.slotsOf? : (slots : List (Option Node)) → {items : List Json} →
    SlotsPresentedBy slots items → SlotsNamesDistinct slots → slotsOf? items = some slots
  | [], _, .nil, _ => rfl
  | none :: slots, _, .empty listed, distinct => by
    rw [slotsOf?_eq_mapM, List.mapM_cons, ← slotsOf?_eq_mapM,
      SlotsPresentedBy.slotsOf? slots listed distinct]
    rfl
  | some n :: slots, j :: items, .node here listed, ⟨inside, insideRest⟩ => by
    have slot : slotOf? j = some (some n) := by
      have node := Node.PresentedBy.ofJson? n here inside
      have notNull : j ≠ .null := by
        rintro rfl
        cases here
      cases j <;> first | exact absurd rfl notNull | exact congrArg (Option.map some) node
    rw [slotsOf?_eq_mapM, List.mapM_cons, slot, ← slotsOf?_eq_mapM,
      SlotsPresentedBy.slotsOf? slots listed insideRest]
    rfl

end

/-! ## What is written is a presentation -/

mutual

/-- The JSON value of a node presents it. -/
theorem Node.presentedBy_toJson : (n : Node) → n.floats = [] → n.PresentedBy n.toJson
  | ⟨kind, flags, line, children⟩, floats => by
    have listed := presentedBy_childrenToJson children floats
    have names : ∀ field : Field, field.name ∈ [Field.kind.name, Field.flags.name,
        Field.line.name, Field.children.name] := by
      intro field
      cases field <;> simp
    refine .object (fun field => ?_) (fun field j mem => ?_) fun field absent => ?_
    · simp only [List.map_cons, List.map_nil]
      cases field <;> decide
    · simp only [List.mem_cons, List.not_mem_nil, or_false, Prod.mk.injEq] at mem
      rcases mem with ⟨same, rfl⟩ | ⟨same, rfl⟩ | ⟨same, rfl⟩ | ⟨same, rfl⟩ <;>
        obtain rfl := Field.name_injective same
      · exact .kind (.inl rfl)
      · exact .flags _
      · exact .line _
      · exact .children listed
    · exact absurd (names field) absent

/-- The JSON value of a value presents it. -/
theorem Value.presentedBy_toJson : (v : Value) → v.floats = [] → v.PresentedBy v.toJson
  | .null, _ => .null
  | .bool b, _ => .bool b
  | .int n, _ => .int n
  | .float x, floats => by cases floats
  | .string s, _ => .string s
  | .node n, floats => .node (Node.presentedBy_toJson n floats)
  | .list slots, floats => .list (presentedBy_slotsToJson slots floats)

theorem presentedBy_childrenToJson : (children : List (String × Value)) →
    childrenFloats children = [] → ChildrenPresentedBy children (childrenToJson children)
  | [], _ => .nil
  | (name, v) :: children, floats => by
    obtain ⟨here, later⟩ := List.append_eq_nil_iff.mp floats
    exact .cons (Value.presentedBy_toJson v here) (presentedBy_childrenToJson children later)

theorem presentedBy_slotsToJson : (slots : List (Option Node)) → slotsFloats slots = [] →
    SlotsPresentedBy slots (slotsToJson slots)
  | [], _ => .nil
  | none :: slots, floats => .empty (presentedBy_slotsToJson slots floats)
  | some n :: slots, floats => by
    obtain ⟨here, later⟩ := List.append_eq_nil_iff.mp floats
    exact .node (Node.presentedBy_toJson n here) (presentedBy_slotsToJson slots later)

end

/-! ## Texts -/

/-- **Every presentation of a tree holds that tree.** Nodes may be objects and arrays in any
mixture, at every level of the tree. -/
theorem ofText_presented (n : Node) (distinct : n.NamesDistinct) (text : String)
    (presented : n.PresentedIn text) (fits : textNesting text ≤ 127) :
    Node.ofText text = .ok n ∧ Value.ofText text = .ok (.node n) := by
  obtain ⟨j, presented, spelled⟩ := presented
  have depth : j.nesting ≤ maxDepth := spelled.textNesting ▸ fits
  have recognised := Value.ofJson?_eq_node.mpr (Node.PresentedBy.ofJson? n presented distinct)
  have value := Value.ofText_eq_ok_iff.mpr ⟨j, spelled, depth, recognised⟩
  exact ⟨Node.ofText_of_value value, value⟩

/-- An object between blanks, its fields out of order, with a member that is none and without flags
and line. Among the children are a node that is an array without its tail, a list with an empty slot
and a node of no listed kind, and a number. -/
theorem ofText_presented_mixed :
    let n : Node := ⟨.name, .zero, 0, [("a", .node ⟨.var, .zero, 0, []⟩),
      ("b", .list [none, some ⟨.unknown, .zero, 0, []⟩]), ("c", .int (-7))]⟩
    let text := " \x7b\"x\":[\x7b\"kind\":0\x7d],\"children\":\x7b\"a\":[\"AST_VAR\",0]," ++
      "\"b\":[null,\x7b\"kind\":\"none\"\x7d],\"c\":-7\x7d,\"kind\":\"AST_NAME\"\x7d\n"
    Node.ofText text = .ok n ∧ Value.ofText text = .ok (.node n) := by
  intro n text
  let members : List (String × Json) := [("a", .array [.string "AST_VAR", .ofWord 0]),
    ("b", .array [.null, .object [("kind", .string "none")]]), ("c", .number (.int (-7)))]
  let j : Json := .object [("x", .array [.object [("kind", .ofWord 0)]]),
    ("children", .object members), ("kind", .string "AST_NAME")]
  have legible : j.Legible := by
    have number : ∀ n : Int, -0x8000000000000000 ≤ n → n < 0x10000000000000000 →
        (Json.number (.int n)).Legible :=
      fun n low high => .number fun rest ends => Number.read_write_int ends low high
    have zero : (Json.ofWord 0).Legible := number 0 (by decide) (by decide)
    have first : (Json.array [.string "AST_VAR", .ofWord 0]).Legible :=
      .array (List.forall_mem_cons.mpr ⟨.string _, List.forall_mem_singleton.mpr zero⟩)
    have unlisted : (Json.object [("kind", .string "none")]).Legible :=
      .object (List.forall_mem_singleton.mpr (.string _))
    have second : (Json.array [.null, .object [("kind", .string "none")]]).Legible :=
      .array (List.forall_mem_cons.mpr ⟨.null, List.forall_mem_singleton.mpr unlisted⟩)
    have children : (Json.object members).Legible :=
      .object (List.forall_mem_cons.mpr ⟨first, List.forall_mem_cons.mpr ⟨second,
        List.forall_mem_singleton.mpr (number (-7) (by decide) (by decide))⟩⟩)
    have other : (Json.array [.object [("kind", .ofWord 0)]]).Legible :=
      .array (List.forall_mem_singleton.mpr (.object (List.forall_mem_singleton.mpr zero)))
    exact .object (List.forall_mem_cons.mpr ⟨other, List.forall_mem_cons.mpr ⟨children,
      List.forall_mem_singleton.mpr (.string _)⟩⟩)
  have first : Node.PresentedBy ⟨.var, .zero, 0, []⟩ (.array [.string "AST_VAR", .ofWord 0]) := by
    refine .array (by decide) (fun field j mem => ?_) fun field mem => ?_
    · simp only [Field.all, List.zip_cons_cons, List.zip_nil_right, List.mem_cons,
        List.not_mem_nil, or_false, Prod.mk.injEq] at mem
      rcases mem with ⟨rfl, rfl⟩ | ⟨rfl, rfl⟩
      · exact .kind (.inl rfl)
      · exact .flags _
    · rcases List.mem_pair.mp mem with rfl | rfl <;> rfl
  have second : Node.PresentedBy ⟨.unknown, .zero, 0, []⟩ (.object [("kind", .string "none")]) := by
    refine .object (fun field => by cases field <;> decide) (fun field j mem => ?_) fun field => ?_
    · obtain ⟨same, rfl⟩ := Prod.mk.inj (List.mem_singleton.mp mem)
      obtain rfl : field = .kind := Field.name_injective same
      exact .kind (.inr ⟨rfl, by decide +kernel⟩)
    · cases field with
      | kind => exact fun absent => (absent (by decide)).elim
      | flags | line | children => exact fun _ => rfl
  have children : ChildrenPresentedBy n.children members :=
    .cons (.node first) (.cons (.list (.empty (.node second .nil))) (.cons (.int (-7)) .nil))
  have presented : n.PresentedBy j := by
    refine .object (fun field => by cases field <;> decide) (fun field j mem => ?_) fun field => ?_
    · have other : field.name ≠ "x" := by cases field <;> decide
      simp only [List.mem_cons, List.not_mem_nil, or_false, Prod.mk.injEq, other, false_and,
        false_or] at mem
      rcases mem with ⟨same, rfl⟩ | ⟨same, rfl⟩
      · obtain rfl : field = .children := Field.name_injective same
        exact .children children
      · obtain rfl : field = .kind := Field.name_injective same
        exact .kind (.inl rfl)
    · cases field with
      | kind | children => exact fun absent => (absent (by decide)).elim
      | flags | line => exact fun _ => rfl
  have spelled : j.SpelledIn text :=
    @SpelledIn.mk j text [' '] j.write ['\n'] (by simp [Blanks, Reader.isBlank])
      (legible.textOf.mono fun _ _ written => written.spelledBy)
      (by simp [Blanks, Reader.isBlank]) (by decide +kernel)
  have distinct : n.NamesDistinct :=
    ⟨by decide, ⟨by decide, trivial⟩, ⟨⟨by decide, trivial⟩, trivial⟩, trivial, trivial⟩
  exact ofText_presented n distinct text ⟨j, presented, spelled⟩ (by decide +kernel)

/-- The text of a tree without doubles is one of its presentations. -/
theorem Node.presentedIn_text (n : Node) (floats : n.floats = []) : n.PresentedIn n.text := by
  refine ⟨n.toJson, n.presentedBy_toJson floats, (n.legible_toJson fun x mem => ?_).spelledIn⟩
  rw [floats] at mem
  cases mem

end ShortForm
