import Mathlib.Data.List.Forall2
import ShortForm.Tree.OfJson

/-!
# Recognising trees in steps

A tree is recognised along the members of objects and the items of arrays. Each of these walks is a
fold of one step: `Fields.addMember?` for the members of a node, `putMember?` for its children, and
`slotOf?` for the items of a list. The folds are what a reader follows that goes through a text
once, and what a grammar of trees speaks about.

A value is a node exactly when it is recognised as one (`Value.ofJson?_eq_node`).
-/

namespace ShortForm

/-- The fields with one more, if the value can be that field. -/
def Fields.add? (fields : Fields) (field : Field) (j : Json) : Option Fields :=
  match field with
  | .kind => j.kind?.map fun kind => { fields with kind := some kind }
  | .flags => j.word?.map fun flags => { fields with flags := some flags }
  | .line => j.word?.map fun line => { fields with line := some line }
  | .children => (childrenOf? j).map fun children => { fields with children := some children }

/-- What a member of an object does to the fields of a node. -/
def Fields.addMember? (fields : Fields) (m : String × Json) : Option Fields :=
  match Field.ofName? m.1 with
  | none => some fields
  | some field => if fields.has field then none else fields.add? field m.2

/-- What a member of an object does to the children of a node. -/
def putMember? (children : Named Value) (m : String × Json) : Option (Named Value) :=
  (Value.ofJson? m.2).map (Named.put children m.1)

/-- The slot that an item of an array is. -/
def slotOf? : Json → Option (Option Node)
  | .null => some none
  | j => (Node.ofJson? j).map some

theorem fieldsOf?_cons (fields : Fields) (m : String × Json) (members : List (String × Json)) :
    fieldsOf? fields (m :: members) =
      (fields.addMember? m).bind fun fields' => fieldsOf? fields' members := by
  obtain ⟨name, j⟩ := m
  rw [fieldsOf?, Fields.addMember?]
  cases Field.ofName? name with
  | none => rfl
  | some field =>
    by_cases known : fields.has field
    · simp only [if_pos known]
      rfl
    · simp only [if_neg known, Fields.add?]
      cases field with
      | kind => cases j.kind? <;> rfl
      | flags => cases j.word? <;> rfl
      | line => cases j.word? <;> rfl
      | children => cases childrenOf? j <;> rfl

/-- The fields of a node are found member by member. -/
theorem fieldsOf?_eq_foldlM (fields : Fields) (members : List (String × Json)) :
    fieldsOf? fields members = members.foldlM Fields.addMember? fields := by
  induction members generalizing fields with
  | nil => rfl
  | cons m members ih =>
    rw [fieldsOf?_cons, List.foldlM_cons]
    exact congrArg (Option.bind (fields.addMember? m)) (funext fun fields' => ih fields')

/-- The children of a node are put in member by member. -/
theorem childrenOfMembers?_eq_foldlM (children : Named Value) (members : List (String × Json)) :
    childrenOfMembers? children members = members.foldlM putMember? children := by
  induction members generalizing children with
  | nil => rfl
  | cons m members ih =>
    obtain ⟨name, j⟩ := m
    rw [childrenOfMembers?, List.foldlM_cons, putMember?]
    cases Value.ofJson? j with
    | none => rfl
    | some v => exact ih _

/-- The member is recognised as the child. -/
def IsChild (child : String × Value) (m : String × Json) : Prop :=
  child.1 = m.1 ∧ Value.ofJson? m.2 = some child.2

/-- Members that are recognised as these children put them in one after the other. -/
theorem childrenOfMembers?_of_isChild {more : Named Value} {members : List (String × Json)}
    (recognised : List.Forall₂ IsChild more members) (children : Named Value) :
    childrenOfMembers? children members = some (children.putAll more) := by
  induction recognised generalizing children with
  | nil => rfl
  | @cons child m more members here _ ih =>
    obtain ⟨name, v⟩ := child
    obtain ⟨_, j⟩ := m
    obtain ⟨rfl, here⟩ := here
    rw [childrenOfMembers?, here]
    exact ih (children.put name v)

/-- The slots of a list are found item by item. -/
theorem slotsOf?_eq_mapM (items : List Json) : slotsOf? items = items.mapM slotOf? := by
  induction items with
  | nil => rfl
  | cons j items ih =>
    rw [List.mapM_cons, ← ih]
    cases j with
    | null => rfl
    | bool b => rfl
    | number n => rfl
    | string s => rfl
    | array inner =>
      rw [slotsOf?, slotOf?]
      · cases Node.ofJson? (.array inner) <;> rfl
      all_goals simp
    | object inner =>
      rw [slotsOf?, slotOf?]
      · cases Node.ofJson? (.object inner) <;> rfl
      all_goals simp

/-- Items that begin with a string are no slots. -/
theorem slotsOf?_string (tag : String) (items : List Json) :
    slotsOf? (.string tag :: items) = none := by
  rw [slotsOf?_eq_mapM, List.mapM_cons]
  rfl

/-- The first item of a node is a string. -/
theorem string_of_nodeOfItems? {items : List Json} {n : Node} (node : nodeOfItems? items = some n) :
    ∃ tag rest, items = .string tag :: rest := by
  have first : ∀ {kind : Json} {rest : List Json}, kind.kind?.isSome →
      ∃ tag rest', kind :: rest = .string tag :: rest' := by
    intro kind rest some
    cases kind with
    | string tag => exact ⟨tag, rest, rfl⟩
    | _ => cases some
  unfold nodeOfItems? at node
  split at node
  case h_5 => cases node
  all_goals
    obtain ⟨kind, isKind, _⟩ := Option.bind_eq_some_iff.mp node
    exact first (by rw [isKind]; rfl)

/-- What is a node is no list of slots. -/
theorem slotsOf?_of_nodeOfItems? {items : List Json} {n : Node}
    (node : nodeOfItems? items = some n) : slotsOf? items = none := by
  obtain ⟨tag, rest, rfl⟩ := string_of_nodeOfItems? node
  exact slotsOf?_string tag rest

/-- A value is a node exactly when it is recognised as one. -/
theorem Value.ofJson?_eq_node {j : Json} {n : Node} :
    Value.ofJson? j = some (.node n) ↔ Node.ofJson? j = some n := by
  cases j with
  | null => simp [Value.ofJson?, Node.ofJson?]
  | bool b => simp [Value.ofJson?, Node.ofJson?]
  | number m =>
    have scalar : Value.ofNumber m ≠ .node n := by
      unfold Value.ofNumber
      split
      · split <;> simp
      · simp
    simp [Value.ofJson?, Node.ofJson?, scalar]
  | string s => simp [Value.ofJson?, Node.ofJson?]
  | array items =>
    rw [Value.ofJson?, Node.ofJson?]
    cases nodeOfItems? items with
    | none => simp
    | some m => simp
  | object members =>
    rw [Value.ofJson?, Node.ofJson?]
    cases (fieldsOf? {} members).bind Fields.node? <;> simp

end ShortForm
