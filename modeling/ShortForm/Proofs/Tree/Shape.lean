import ShortForm.Proofs.Tree.OfJson
import ShortForm.Tree.Read

/-!
# The grammar of trees

Which JSON values are trees, said without a word about reading: `Shape` is a predicate on JSON
values, by induction. A value is recognised exactly when it has this shape (`isSome_ofJson?_iff`),
and a text that holds no value fails in one of three ways, in this order: it is no JSON, or the
value has not the shape, or more text follows.

The sorts of values do not overlap (`Variant.eq_of_decode?`). An array might be a node or a list,
but the first item of a node is a string and no item of a list is. So it does not matter in which
order the sorts are tried.
-/

namespace ShortForm

namespace Field

/-- The fields, in the order of a node that is written as an array. -/
def all : List Field := [kind, flags, line, children]

theorem name_injective {a b : Field} (same : a.name = b.name) : a = b := by
  revert same
  cases a <;> cases b <;> decide

theorem ofName?_eq_some {name : String} {field : Field} :
    ofName? name = some field ↔ name = field.name := by
  constructor
  · intro found
    have same := List.find?_some found
    exact (beq_iff_eq.mp same).symm
  · rintro rfl
    cases field <;> decide

end Field

namespace Json

mutual

/-- The JSON value is that of a value. -/
inductive Shape : Json → Prop where
  | null : Shape .null
  | bool (b : Bool) : Shape (.bool b)
  | number (n : Number) : Shape (.number n)
  | string (s : String) : Shape (.string s)
  | node {j : Json} : NodeShape j → Shape j
  | list {items : List Json} : (∀ item ∈ items, SlotShape item) → Shape (.array items)

/-- The JSON value is that of a node. Members with other names than those of the fields are free. -/
inductive NodeShape : Json → Prop where
  | object {members : List (String × Json)} :
      (members.map (·.1)).count Field.kind.name = 1 →
      (∀ field : Field, (members.map (·.1)).count field.name ≤ 1) →
      (∀ field j, (Field.name field, j) ∈ members → FieldShape field j) →
      NodeShape (.object members)
  | array {items : List Json} : 1 ≤ items.length → items.length ≤ 4 →
      (∀ field j, (field, j) ∈ Field.all.zip items → FieldShape field j) →
      NodeShape (.array items)

/-- The JSON value can be that of a field of a node. -/
inductive FieldShape : Field → Json → Prop where
  | kind (tag : String) : FieldShape .kind (.string tag)
  | flags {n : Int} : 0 ≤ n → n < 0x100000000 → FieldShape .flags (.number (.int n))
  | line {n : Int} : 0 ≤ n → n < 0x100000000 → FieldShape .line (.number (.int n))
  | children {members : List (String × Json)} : (∀ m ∈ members, Shape m.2) →
      FieldShape .children (.object members)

/-- The JSON value is that of a slot of a list. -/
inductive SlotShape : Json → Prop where
  | empty : SlotShape .null
  | node {j : Json} : NodeShape j → SlotShape j

end

end Json

open Json

/-! ## Recognising and the grammar -/

theorem isSome_mapM_iff {α β : Type} {f : α → Option β} {items : List α} :
    (items.mapM f).isSome ↔ ∀ a ∈ items, (f a).isSome := by
  induction items with
  | nil => simp
  | cons a items ih =>
    rw [List.mapM_cons, List.forall_mem_cons, ← ih]
    cases f a with
    | none => simp
    | some b =>
      cases items.mapM f with
      | none => simp
      | some bs => simp

theorem isSome_word?_iff {j : Json} :
    j.word?.isSome ↔ ∃ n, j = .number (.int n) ∧ 0 ≤ n ∧ n < 0x100000000 := by
  cases j with
  | number n =>
    cases n with
    | int n =>
      rw [Json.word?, Number.word?]
      split
      · rename_i fits
        exact ⟨fun _ => ⟨n, rfl, fits⟩, fun _ => rfl⟩
      · rename_i misfits
        refine ⟨fun never => (by cases never), ?_⟩
        rintro ⟨m, same, fits⟩
        cases same
        exact absurd fits misfits
    | float x => simp [Json.word?, Number.word?]
  | null => simp [Json.word?]
  | bool b => simp [Json.word?]
  | string s => simp [Json.word?]
  | array items => simp [Json.word?]
  | object members => simp [Json.word?]

theorem isSome_kind?_iff {j : Json} : j.kind?.isSome ↔ FieldShape .kind j := by
  constructor
  · intro some
    cases j <;> first | exact .kind _ | cases some
  · rintro ⟨tag⟩
    rfl

theorem isSome_flags?_iff {j : Json} : j.word?.isSome ↔ FieldShape .flags j := by
  rw [isSome_word?_iff]
  constructor
  · rintro ⟨n, rfl, low, high⟩
    exact .flags low high
  · rintro (_ | ⟨low, high⟩)
    exact ⟨_, rfl, low, high⟩

theorem isSome_line?_iff {j : Json} : j.word?.isSome ↔ FieldShape .line j := by
  rw [isSome_word?_iff]
  constructor
  · rintro ⟨n, rfl, low, high⟩
    exact .line low high
  · rintro (_ | _ | ⟨low, high⟩)
    exact ⟨_, rfl, low, high⟩

theorem isSome_foldlM_putMember?_iff {members : List (String × Json)} (children : Named Value) :
    (members.foldlM putMember? children).isSome ↔
      ∀ m ∈ members, (Value.ofJson? m.2).isSome := by
  induction members generalizing children with
  | nil => simp
  | cons m members ih =>
    rw [List.foldlM_cons, List.forall_mem_cons, putMember?]
    cases Value.ofJson? m.2 with
    | none => simp
    | some v => simpa using ih _

section

variable {j : Json} (shapes : ∀ k, sizeOf k < sizeOf j → ((Value.ofJson? k).isSome ↔ Shape k))

include shapes in
theorem isSome_childrenOf?_iff : (childrenOf? j).isSome ↔ FieldShape .children j := by
  cases j with
  | object members =>
    rw [childrenOf?, childrenOfMembers?_eq_foldlM, isSome_foldlM_putMember?_iff]
    have inside : ∀ m ∈ members, sizeOf m.2 < sizeOf (Json.object members) := by
      intro m mem
      have := List.sizeOf_lt_of_mem mem
      cases m
      simp only [Json.object.sizeOf_spec, Prod.mk.sizeOf_spec] at this ⊢
      omega
    constructor
    · intro all
      exact .children fun m mem => (shapes m.2 (inside m mem)).mp (all m mem)
    · intro shape m mem
      cases shape with
      | children all => exact (shapes m.2 (inside m mem)).mpr (all m mem)
  | _ => exact ⟨fun never => (by cases never), fun never => (by cases never)⟩

include shapes in
/-- A field is taken exactly when it has its shape, whatever the other fields are. -/
theorem Fields.isSome_add?_iff (fields : Fields) (field : Field) :
    (fields.add? field j).isSome ↔ FieldShape field j := by
  cases field with
  | kind => rw [Fields.add?, Option.isSome_map, isSome_kind?_iff]
  | flags => rw [Fields.add?, Option.isSome_map, isSome_flags?_iff]
  | line => rw [Fields.add?, Option.isSome_map, isSome_line?_iff]
  | children => rw [Fields.add?, Option.isSome_map, isSome_childrenOf?_iff shapes]

end

namespace Fields

theorem addMember?_of_none {name : String} (unknown : Field.ofName? name = none) (fields : Fields)
    (j : Json) : fields.addMember? (name, j) = some fields := by
  rw [addMember?, unknown]

theorem addMember?_name (fields : Fields) (field : Field) (j : Json) :
    fields.addMember? (field.name, j) = if fields.has field then none else fields.add? field j := by
  rw [addMember?, Field.ofName?_eq_some.mpr rfl]

theorem has_of_add? {fields fields' : Fields} {field : Field} {j : Json}
    (added : fields.add? field j = some fields') (other : Field) :
    fields'.has other = (fields.has other || decide (other = field)) := by
  cases field <;> obtain ⟨_, _, rfl⟩ := Option.map_eq_some_iff.mp added <;> cases other <;>
    simp [has]

/-- A member is a field, and then it is the only one of its name, or changes nothing. -/
theorem count_of_addMember? {fields fields' : Fields} {m : String × Json}
    (added : fields.addMember? m = some fields') (field : Field) :
    (fields'.has field).toNat = (fields.has field).toNat + if m.1 = field.name then 1 else 0 := by
  obtain ⟨name, j⟩ := m
  cases known : Field.ofName? name with
  | none =>
    have other : name ≠ field.name := by
      intro same
      rw [Field.ofName?_eq_some.mpr same] at known
      cases known
    rw [addMember?_of_none known] at added
    cases added
    rw [if_neg other, Nat.add_zero]
  | some found =>
    obtain rfl := Field.ofName?_eq_some.mp known
    rw [addMember?_name] at added
    split at added
    · cases added
    · rename_i new
      rw [has_of_add? added field]
      by_cases same : field = found
      · subst same
        simp [new]
      · have other : found.name ≠ field.name := fun eq => same (Field.name_injective eq).symm
        simp [same, other]

/-- Members that can be fields are fields if none is there twice. -/
theorem isSome_foldlM_addMember?_iff {members : List (String × Json)}
    (shapes : ∀ m ∈ members, ∀ (fields : Fields) (field : Field),
      (fields.add? field m.2).isSome ↔ FieldShape field m.2) (fields : Fields) :
    (members.foldlM addMember? fields).isSome ↔
      (∀ field, (fields.has field).toNat + (members.map (·.1)).count field.name ≤ 1) ∧
        ∀ field j, (Field.name field, j) ∈ members → FieldShape field j := by
  induction members generalizing fields with
  | nil =>
    refine ⟨fun _ => ⟨fun field => ?_, fun _ _ never => (by cases never)⟩, fun _ => rfl⟩
    simpa using Bool.toNat_le _
  | cons m members ih =>
    have later := ih fun m' mem => shapes m' (List.mem_cons_of_mem m mem)
    have first := shapes m List.mem_cons_self
    obtain ⟨name, j⟩ := m
    rw [List.foldlM_cons]
    cases added : fields.addMember? (name, j) with
    | none =>
      refine ⟨fun never => (by cases never), ?_⟩
      rintro ⟨single, fits⟩
      cases known : Field.ofName? name with
      | none =>
        rw [addMember?_of_none known] at added
        cases added
      | some field =>
        obtain rfl := Field.ofName?_eq_some.mp known
        have shape := (first fields field).mpr (fits field j List.mem_cons_self)
        have new : fields.has field = false := by
          have here := single field
          simp only [List.map_cons, List.count_cons_self] at here
          cases has : fields.has field with
          | false => rfl
          | true =>
            rw [has, Bool.toNat_true] at here
            omega
        rw [addMember?_name, new, if_neg Bool.false_ne_true] at added
        rw [added] at shape
        cases shape
    | some fields' =>
      have count : ∀ field, (fields'.has field).toNat + (members.map (·.1)).count field.name =
          (fields.has field).toNat + (((name, j) :: members).map (·.1)).count field.name := by
        intro field
        rw [count_of_addMember? added, List.map_cons, List.count_cons]
        simp only [beq_iff_eq]
        omega
      have fits : ∀ field, name = Field.name field → FieldShape field j := by
        rintro field rfl
        rw [addMember?_name] at added
        split at added
        · cases added
        · exact (first fields field).mp (by rw [added]; rfl)
      apply (later fields').trans
      simp only [count]
      refine and_congr_right fun _ => ⟨fun rest field k mem => ?_, fun all field k mem => ?_⟩
      · rcases List.mem_cons.mp mem with same | mem
        · cases same
          exact fits field rfl
        · exact rest field k mem
      · exact all field k (List.mem_cons_of_mem _ mem)

/-- How often a name of a field is there when all members have been gone through. -/
theorem count_of_foldlM_addMember? {members : List (String × Json)} {fields fields' : Fields}
    (added : members.foldlM addMember? fields = some fields') (field : Field) :
    (fields'.has field).toNat =
      (fields.has field).toNat + (members.map (·.1)).count field.name := by
  induction members generalizing fields with
  | nil =>
    cases added
    rfl
  | cons m members ih =>
    rw [List.foldlM_cons] at added
    cases first : fields.addMember? m with
    | none => simp [first] at added
    | some middle =>
      rw [first] at added
      rw [ih added, count_of_addMember? first, List.map_cons, List.count_cons]
      simp only [beq_iff_eq]
      omega

end Fields

/-- An array is a node if it has one to four items, each of the shape of its field. -/
theorem isSome_nodeOfItems?_iff {items : List Json}
    (children : ∀ j ∈ items, ((childrenOf? j).isSome ↔ FieldShape .children j)) :
    (nodeOfItems? items).isSome ↔ 1 ≤ items.length ∧ items.length ≤ 4 ∧
      ∀ field j, (field, j) ∈ Field.all.zip items → FieldShape field j := by
  match items, children with
  | [], _ => simp [nodeOfItems?]
  | [a], _ =>
    have parts : (nodeOfItems? [a]).isSome ↔ a.kind?.isSome := by
      rw [nodeOfItems?]
      cases a.kind? <;> simp
    rw [parts, isSome_kind?_iff]
    simp [Field.all]
  | [a, b], _ =>
    have parts : (nodeOfItems? [a, b]).isSome ↔ a.kind?.isSome ∧ b.word?.isSome := by
      rw [nodeOfItems?]
      cases a.kind? <;> cases b.word? <;> simp
    rw [parts, isSome_kind?_iff, isSome_flags?_iff]
    simp [Field.all, or_imp, forall_and]
  | [a, b, c], _ =>
    have parts : (nodeOfItems? [a, b, c]).isSome ↔
        a.kind?.isSome ∧ b.word?.isSome ∧ c.word?.isSome := by
      rw [nodeOfItems?]
      cases a.kind? <;> cases b.word? <;> cases c.word? <;> simp
    rw [parts, isSome_kind?_iff, isSome_flags?_iff, isSome_line?_iff]
    simp [Field.all, or_imp, forall_and]
  | [a, b, c, d], children =>
    have parts : (nodeOfItems? [a, b, c, d]).isSome ↔
        a.kind?.isSome ∧ b.word?.isSome ∧ c.word?.isSome ∧ (childrenOf? d).isSome := by
      rw [nodeOfItems?]
      cases a.kind? <;> cases b.word? <;> cases c.word? <;> cases childrenOf? d <;> simp
    rw [parts, isSome_kind?_iff, isSome_flags?_iff, isSome_line?_iff, children d (by simp)]
    simp [Field.all, or_imp, forall_and]
  | _ :: _ :: _ :: _ :: _ :: _, _ => simp [nodeOfItems?]

section

variable {j : Json} (shapes : ∀ k, sizeOf k < sizeOf j → ((Value.ofJson? k).isSome ↔ Shape k))

include shapes in
theorem Node.isSome_ofJson?_of_smaller : (Node.ofJson? j).isSome ↔ NodeShape j := by
  cases j with
  | object members =>
    have inside : ∀ m ∈ members, sizeOf m.2 < sizeOf (Json.object members) := by
      intro m mem
      have := List.sizeOf_lt_of_mem mem
      cases m
      simp only [Json.object.sizeOf_spec, Prod.mk.sizeOf_spec] at this ⊢
      omega
    have fits : ∀ m ∈ members, ∀ (fields : Fields) (field : Field),
        (fields.add? field m.2).isSome ↔ FieldShape field m.2 := fun m mem fields field =>
      fields.isSome_add?_iff (fun k smaller => shapes k (Nat.lt_trans smaller (inside m mem))) field
    have single := Fields.isSome_foldlM_addMember?_iff fits {}
    rw [Node.ofJson?, fieldsOf?_eq_foldlM]
    cases added : members.foldlM Fields.addMember? {} with
    | none =>
      rw [added] at single
      refine ⟨fun never => (by cases never), ?_⟩
      rintro (⟨_, counts, shape⟩ | _)
      have never := single.mpr ⟨fun field => ?_, shape⟩
      · cases never
      · cases field <;> simpa [Fields.has] using counts _
    | some fields =>
      rw [added] at single
      obtain ⟨counts, shape⟩ := single.mp rfl
      have kind : (fields.has .kind).toNat = (members.map (·.1)).count Field.kind.name := by
        have count := Fields.count_of_foldlM_addMember? added .kind
        rwa [show Fields.has {} .kind = false from rfl, Bool.toNat_false, Nat.zero_add] at count
      have whole : ((some fields).bind Fields.node?).isSome = fields.has .kind := by
        rw [Option.bind_some, Fields.node?, Option.isSome_map]
        rfl
      rw [whole]
      constructor
      · intro has
        rw [has, Bool.toNat_true] at kind
        exact .object kind.symm (fun field => by have := counts field; omega) shape
      · rintro (⟨once, _, _⟩ | _)
        rw [once] at kind
        exact Bool.toNat_eq_one.mp kind
  | array items =>
    have inside : ∀ item ∈ items, sizeOf item < sizeOf (Json.array items) := by
      intro item mem
      have := List.sizeOf_lt_of_mem mem
      simp only [Json.array.sizeOf_spec]
      omega
    have array : NodeShape (.array items) ↔ 1 ≤ items.length ∧ items.length ≤ 4 ∧
        ∀ field j, (field, j) ∈ Field.all.zip items → FieldShape field j := by
      constructor
      · rintro (_ | ⟨low, high, shape⟩)
        exact ⟨low, high, shape⟩
      · rintro ⟨low, high, shape⟩
        exact .array low high shape
    rw [Node.ofJson?, array]
    refine isSome_nodeOfItems?_iff fun item mem => isSome_childrenOf?_iff fun k smaller => ?_
    exact shapes k (Nat.lt_trans smaller (inside item mem))
  | _ => exact ⟨fun never => (by cases never), fun never => (by cases never)⟩

include shapes in
theorem isSome_slotOf?_of_smaller {items : List Json} (array : j = .array items) :
    ∀ item ∈ items, ((slotOf? item).isSome ↔ SlotShape item) := by
  intro item mem
  have smaller : sizeOf item < sizeOf j := by
    have := List.sizeOf_lt_of_mem mem
    subst array
    simp only [Json.array.sizeOf_spec]
    omega
  have node : (Node.ofJson? item).isSome ↔ NodeShape item :=
    Node.isSome_ofJson?_of_smaller fun k less => shapes k (Nat.lt_trans less smaller)
  by_cases null : item = .null
  · subst null
    exact ⟨fun _ => .empty, fun _ => rfl⟩
  · have slot : slotOf? item = (Node.ofJson? item).map some := by
      cases item <;> first | rfl | exact absurd rfl null
    rw [slot, Option.isSome_map, node]
    constructor
    · exact .node
    · rintro (_ | node)
      · exact absurd rfl null
      · exact node

end

/-- **What is recognised is what has the shape of a tree.** The induction is on the size of the
value: whether a node is one is asked of values inside of it, through its children. -/
theorem Value.isSome_ofJson?_iff (j : Json) : (Value.ofJson? j).isSome ↔ Shape j := by
  induction size : sizeOf j using Nat.strongRecOn generalizing j with
  | ind n ih =>
    have shapes : ∀ k, sizeOf k < sizeOf j → ((Value.ofJson? k).isSome ↔ Shape k) :=
      fun k smaller => ih (sizeOf k) (size ▸ smaller) k rfl
    have node := Node.isSome_ofJson?_of_smaller shapes
    cases j with
    | null => exact ⟨fun _ => .null, fun _ => rfl⟩
    | bool b => exact ⟨fun _ => .bool b, fun _ => rfl⟩
    | number n => exact ⟨fun _ => .number n, fun _ => rfl⟩
    | string s => exact ⟨fun _ => .string s, fun _ => rfl⟩
    | object members =>
      have same : (Value.ofJson? (.object members)).isSome =
          (Node.ofJson? (.object members)).isSome := by
        rw [Value.ofJson?, Node.ofJson?, Option.isSome_map]
      rw [same, node]
      refine ⟨.node, fun shape => ?_⟩
      cases shape with
      | node shape => exact shape
    | array items =>
      have slots : (slotsOf? items).isSome ↔ ∀ item ∈ items, SlotShape item := by
        rw [slotsOf?_eq_mapM, isSome_mapM_iff]
        exact forall₂_congr (isSome_slotOf?_of_smaller shapes rfl)
      rw [Node.ofJson?] at node
      rw [Value.ofJson?]
      cases isNode : nodeOfItems? items with
      | some n =>
        rw [isNode] at node
        exact ⟨fun _ => .node (node.mp rfl), fun _ => rfl⟩
      | none =>
        rw [isNode] at node
        simp only [Option.isSome_map]
        rw [slots]
        constructor
        · exact .list
        · rintro (_ | _ | _ | _ | shape | list)
          · cases node.mpr shape
          · exact list

/-! ## The sorts of values -/

/-- The sorts of values. A number is one, whether it is whole or not. -/
inductive Variant where
  | null | bool | number | string | node | list
  deriving DecidableEq

namespace Variant

/-- The value of this sort that a JSON value is. -/
def decode? : Variant → Json → Option Value
  | null, .null => some .null
  | bool, .bool b => some (.bool b)
  | number, .number n => some (.ofNumber n)
  | string, .string s => some (.string s)
  | node, j => (Node.ofJson? j).map .node
  | list, .array items => (slotsOf? items).map .list
  | _, _ => none

/-- The only sort that a JSON value can be a value of. -/
def ofJson : Json → Variant
  | .null => null
  | .bool _ => bool
  | .number _ => number
  | .string _ => string
  | .object _ => node
  | .array items => if (nodeOfItems? items).isSome then node else list

theorem ofJson?_eq_decode? (j : Json) : Value.ofJson? j = (ofJson j).decode? j := by
  cases j with
  | array items =>
    rw [Value.ofJson?, ofJson]
    cases isNode : nodeOfItems? items with
    | none => rfl
    | some n =>
      rw [Option.isSome_some, if_pos rfl, decode?, Node.ofJson?, isNode]
      rfl
  | object members => rfl
  | _ => rfl

theorem eq_ofJson {a : Variant} {j : Json} {v : Value} (decoded : a.decode? j = some v) :
    a = ofJson j := by
  cases j with
  | array items =>
    rw [ofJson]
    cases a with
    | node =>
      obtain ⟨n, isNode, _⟩ := Option.map_eq_some_iff.mp decoded
      rw [Node.ofJson?] at isNode
      rw [isNode, Option.isSome_some, if_pos rfl]
    | list =>
      cases isNode : nodeOfItems? items with
      | none => rfl
      | some n =>
        rw [decode?, slotsOf?_of_nodeOfItems? isNode] at decoded
        cases decoded
    | _ => cases decoded
  | _ =>
    cases a with
    | list => cases decoded
    | _ => first | rfl | cases decoded

/-- **The sorts do not overlap.** -/
theorem eq_of_decode? {a b : Variant} {j : Json} {v w : Value} (left : a.decode? j = some v)
    (right : b.decode? j = some w) : a = b :=
  (eq_ofJson left).trans (eq_ofJson right).symm

/-- The sorts can be tried in any order. -/
theorem findSome?_decode? {order : List Variant} (all : ∀ variant, variant ∈ order) (j : Json) :
    order.findSome? (·.decode? j) = Value.ofJson? j := by
  rw [ofJson?_eq_decode?]
  cases found : order.findSome? (·.decode? j) with
  | none => exact (List.findSome?_eq_none_iff.mp found _ (all (ofJson j))).symm
  | some v =>
    obtain ⟨variant, _, decoded⟩ := List.exists_of_findSome?_eq_some found
    rw [← eq_ofJson decoded, decoded]

end Variant

/-! ## Texts -/

/-- **A text fails to be a tree in one of three ways**, tried in this order: what stands in front is
no JSON, and the fault is the one of reading it; the value has not the shape of a tree; or more than
blanks follow. Otherwise the text is read as the tree that the value in front is. The shape is that
of exactly one sort of values, so the order in which the sorts are tried on a value does not change
what tree it is. -/
theorem ofText_shape :
    (∀ text : String,
      (∃ fault, (Json.read maxDepth).run text.toList = .error fault ∧
        Value.ofText text = .error (.malformed fault)) ∨
      ∃ j rest, (Json.read maxDepth).run text.toList = .ok (j, rest) ∧
        ((¬ Shape j ∧ Value.ofText text = .error (.malformed .noShape)) ∨
          (Shape j ∧ rest.all Reader.isBlank = false ∧
            Value.ofText text = .error (.malformed .trailingText)) ∨
          (Shape j ∧ rest.all Reader.isBlank = true ∧
            ∃ v, Value.ofJson? j = some v ∧ Value.ofText text = .ok v))) ∧
    Fault.noShape.kind = .shape ∧
    Fault.noShape.message = "data did not match any variant of untagged enum Value" ∧
    Fault.trailingText.message = "trailing characters" ∧
    (∀ j, Shape j ↔ ∃ variant : Variant, (variant.decode? j).isSome) ∧
    (∀ (j : Json) (a b : Variant) (v w : Value),
      a.decode? j = some v → b.decode? j = some w → a = b) ∧
    (∀ order : List Variant, (∀ variant, variant ∈ order) →
      ∀ j, order.findSome? (·.decode? j) = Value.ofJson? j) := by
  refine ⟨fun text => ?_, rfl, rfl, rfl, fun j => ?_, ?_, ?_⟩
  · rw [Value.ofText_eq]
    cases (Json.read maxDepth).run text.toList with
    | error fault => exact .inl ⟨fault, rfl, rfl⟩
    | ok taken =>
      obtain ⟨j, rest⟩ := taken
      refine .inr ⟨j, rest, rfl, ?_⟩
      have shape := Value.isSome_ofJson?_iff j
      cases recognised : Value.ofJson? j with
      | none =>
        rw [recognised] at shape
        exact .inl ⟨fun has => (by cases shape.mpr has), by simp only [recognised]⟩
      | some v =>
        rw [recognised] at shape
        have has := shape.mp rfl
        cases blank : rest.all Reader.isBlank with
        | false =>
          refine .inr (.inl ⟨has, rfl, ?_⟩)
          simp only [recognised, blank, Bool.false_eq_true, if_false]
        | true =>
          refine .inr (.inr ⟨has, rfl, v, rfl, ?_⟩)
          simp only [recognised, blank, if_true]
  · rw [← Value.isSome_ofJson?_iff, Variant.ofJson?_eq_decode?]
    constructor
    · exact fun decoded => ⟨_, decoded⟩
    · rintro ⟨variant, decoded⟩
      obtain ⟨v, some⟩ := Option.isSome_iff_exists.mp decoded
      rwa [← Variant.eq_ofJson some]
  · exact fun j a b v w left right => Variant.eq_of_decode? left right
  · exact fun order all j => Variant.findSome?_decode? all j

/-- An array of one string is a node, in whatever order the sorts are tried. -/
theorem ofText_shape_node :
    let j : Json := .array [.string "AST_NAME"]
    (∀ a : Variant, (a.decode? j).isSome → a = .node) ∧
      [Variant.list, .string, .node, .number, .bool, .null].findSome? (·.decode? j) =
        some (.node ⟨.ofTag "AST_NAME", .zero, 0, []⟩) := by
  intro j
  have node : Variant.node.decode? j = some (.node ⟨.ofTag "AST_NAME", .zero, 0, []⟩) := rfl
  refine ⟨fun a some => ?_, ?_⟩
  · obtain ⟨v, decoded⟩ := Option.isSome_iff_exists.mp some
    exact ofText_shape.2.2.2.2.2.1 j a .node v _ decoded node
  · refine (ofText_shape.2.2.2.2.2.2 _ (fun variant => ?_) j).trans rfl
    cases variant <;> decide

end ShortForm
