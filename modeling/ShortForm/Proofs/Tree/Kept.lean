import ShortForm.Proofs.Json.RoundTrip
import ShortForm.Proofs.Kind
import ShortForm.Tree.OfJson

/-!
# What writing keeps of a tree

Writing a tree as JSON loses one thing: a double that is not finite is written as null. `kept` is
the tree with that done to it and nothing else. Read as a tree, the JSON value of a tree is what is
kept of it (`Value.ofJson?_toJson`, `Node.ofJson?_toJson`), as long as the names of the children of
each node are distinct. Every tree that is built or read has distinct names, but the type of trees
does not say so; `NamesDistinct` does.
-/

namespace ShortForm

/-! ## Parts of a tree -/

mutual

/-- The doubles in a node. -/
def Node.floats : Node → List Binary64
  | ⟨_, _, _, children⟩ => childrenFloats children

/-- The doubles in a value. -/
def Value.floats : Value → List Binary64
  | .float x => [x]
  | .node n => n.floats
  | .list slots => slotsFloats slots
  | .null | .bool _ | .int _ | .string _ => []

def childrenFloats : List (String × Value) → List Binary64
  | [] => []
  | (_, value) :: rest => value.floats ++ childrenFloats rest

def slotsFloats : List (Option Node) → List Binary64
  | [] => []
  | none :: rest => slotsFloats rest
  | some n :: rest => n.floats ++ slotsFloats rest

end

mutual

/-- In the node and in every node in it the names of the children are distinct. -/
def Node.NamesDistinct : Node → Prop
  | ⟨_, _, _, children⟩ => (Named.names children).Nodup ∧ ChildrenNamesDistinct children

/-- In every node in the value the names of the children are distinct. -/
def Value.NamesDistinct : Value → Prop
  | .node n => n.NamesDistinct
  | .list slots => SlotsNamesDistinct slots
  | .null | .bool _ | .int _ | .float _ | .string _ => True

def ChildrenNamesDistinct : List (String × Value) → Prop
  | [] => True
  | (_, value) :: rest => value.NamesDistinct ∧ ChildrenNamesDistinct rest

def SlotsNamesDistinct : List (Option Node) → Prop
  | [] => True
  | none :: rest => SlotsNamesDistinct rest
  | some n :: rest => n.NamesDistinct ∧ SlotsNamesDistinct rest

end

mutual

/-- What writing keeps of a node. -/
def Node.kept : Node → Node
  | ⟨kind, flags, line, children⟩ => ⟨kind, flags, line, childrenKept children⟩

/-- What writing keeps of a value: a double that is not finite becomes null. -/
def Value.kept : Value → Value
  | .null => .null
  | .bool b => .bool b
  | .int n => .int n
  | .float x => if x.isFinite then .float x else .null
  | .string s => .string s
  | .node n => .node n.kept
  | .list slots => .list (slotsKept slots)

def childrenKept : List (String × Value) → List (String × Value)
  | [] => []
  | (name, value) :: rest => (name, value.kept) :: childrenKept rest

def slotsKept : List (Option Node) → List (Option Node)
  | [] => []
  | none :: rest => none :: slotsKept rest
  | some n :: rest => some n.kept :: slotsKept rest

end

theorem mem_childrenFloats {children : List (String × Value)} {x : Binary64} :
    x ∈ childrenFloats children ↔ ∃ name v, (name, v) ∈ children ∧ x ∈ v.floats := by
  induction children with
  | nil => simp [childrenFloats]
  | cons child children ih =>
    simp [childrenFloats, ih, Prod.ext_iff, or_and_right, and_assoc, exists_or]

theorem mem_slotsFloats {slots : List (Option Node)} {x : Binary64} :
    x ∈ slotsFloats slots ↔ ∃ n, some n ∈ slots ∧ x ∈ n.floats := by
  induction slots with
  | nil => simp [slotsFloats]
  | cons slot slots ih =>
    cases slot with
    | none => simp [slotsFloats, ih]
    | some n => simp [slotsFloats, ih, or_and_right, exists_or]

/-! ## Recognising what is written -/

theorem Field.ofName?_name (field : Field) : Field.ofName? field.name = some field := by
  cases field <;> decide

theorem Json.word?_ofWord (w : UInt32) : (Json.ofWord w).word? = some w := by
  have fits : (0 : Int) ≤ w.toNat ∧ (w.toNat : Int) < 0x100000000 := by
    have := w.toNat_lt
    omega
  rw [Json.ofWord, Json.word?, Number.word?, if_pos fits]
  simp

theorem Json.kind?_tag (kind : Kind) : (Json.string kind.tag).kind? = some kind := by
  rw [Json.kind?, Kind.ofTag_tag]

/-- No array of slots could be a node: its first item is no string. -/
theorem nodeOfItems?_slotsToJson (slots : List (Option Node)) :
    nodeOfItems? (slotsToJson slots) = none := by
  have first : ∀ slot rest, ∃ j others, slotsToJson (slot :: rest) = j :: others ∧
      j.kind? = none := by
    intro slot rest
    cases slot with
    | none => exact ⟨.null, _, rfl, rfl⟩
    | some n =>
      obtain ⟨kind, flags, line, children⟩ := n
      exact ⟨_, _, rfl, rfl⟩
  cases slots with
  | nil => rfl
  | cons slot rest =>
    obtain ⟨j, others, eq, kind⟩ := first slot rest
    rw [eq]
    unfold nodeOfItems?
    split <;> simp_all

/-- The fields that a node is written with are found. -/
theorem Node.ofJson?_fields (kind : Kind) (flags : Flags) (line : UInt32)
    (members : List (String × Json)) :
    Node.ofJson? (.object [(Field.kind.name, .string kind.tag),
      (Field.flags.name, .ofWord flags.bits), (Field.line.name, .ofWord line),
      (Field.children.name, .object members)]) =
      (childrenOfMembers? [] members).map fun children => ⟨kind, flags, line, children⟩ := by
  simp only [Node.ofJson?, fieldsOf?, Field.ofName?_name, Fields.has, Json.kind?_tag,
    Json.word?_ofWord, childrenOf?]
  cases childrenOfMembers? [] members with
  | none => rfl
  | some children => rfl

mutual

/-- **The JSON value of a node is that of a node**: of what writing keeps of it. -/
theorem Node.ofJson?_toJson : (n : Node) → n.NamesDistinct → Node.ofJson? n.toJson = some n.kept
  | ⟨kind, flags, line, children⟩, ⟨distinct, inside⟩ => by
    rw [Node.toJson, Node.ofJson?_fields,
      childrenOfMembers?_childrenToJson children inside [] distinct]
    rfl

/-- **The JSON value of a value is that of a value**: of what writing keeps of it. -/
theorem Value.ofJson?_toJson : (v : Value) → v.NamesDistinct →
    Value.ofJson? v.toJson = some v.kept
  | .null, _ => rfl
  | .bool b, _ => rfl
  | .int n, _ => by
    have fits : n.toInt < 0x8000000000000000 := n.toInt_lt
    simp only [Value.toJson, Value.ofJson?, Value.ofNumber, fits, if_true, Int64.ofInt_toInt]
    rfl
  | .float x, _ => by
    rw [Value.toJson, Value.kept]
    split <;> rfl
  | .string s, _ => rfl
  | .node n, distinct => by
    have node := Node.ofJson?_toJson n distinct
    have object : ∀ n : Node, Value.ofJson? n.toJson = (Node.ofJson? n.toJson).map .node := by
      rintro ⟨kind, flags, line, children⟩
      rfl
    rw [Value.toJson, object, node]
    rfl
  | .list slots, distinct => by
    rw [Value.toJson, Value.ofJson?, nodeOfItems?_slotsToJson]
    simp only [slotsOf?_slotsToJson slots distinct]
    rfl

/-- Children go behind those that are there. -/
theorem childrenOfMembers?_childrenToJson : (children : List (String × Value)) →
    ChildrenNamesDistinct children → (before : List (String × Value)) →
    (Named.names before ++ Named.names children).Nodup →
    childrenOfMembers? before (childrenToJson children) = some (before ++ childrenKept children)
  | [], _, before, _ => by simp [childrenToJson, childrenOfMembers?, childrenKept]
  | (name, value) :: rest, ⟨inside, insideRest⟩, before, distinct => by
    have new : name ∉ Named.names before := by
      intro mem
      have apart := (List.nodup_append.mp distinct).2.2 name mem name List.mem_cons_self
      exact apart rfl
    have distinct' : (Named.names (before ++ [(name, value.kept)]) ++ Named.names rest).Nodup := by
      simpa [Named.names] using distinct
    have later := childrenOfMembers?_childrenToJson rest insideRest _ distinct'
    simp only [childrenToJson, childrenOfMembers?, Value.ofJson?_toJson value inside]
    change childrenOfMembers? (Named.put before name value.kept) (childrenToJson rest) = _
    rw [Named.put_of_not_mem new, later, childrenKept, List.append_assoc]
    rfl

/-- Slots are recognised in their places. -/
theorem slotsOf?_slotsToJson : (slots : List (Option Node)) → SlotsNamesDistinct slots →
    slotsOf? (slotsToJson slots) = some (slotsKept slots)
  | [], _ => rfl
  | none :: rest, distinct => by
    simp only [slotsToJson, slotsOf?, slotsOf?_slotsToJson rest distinct]
    rfl
  | some n :: rest, ⟨inside, insideRest⟩ => by
    have node := Node.ofJson?_toJson n inside
    have notNull : n.toJson ≠ .null := by
      cases n
      simp [Node.toJson]
    have item : slotsOf? (n.toJson :: slotsToJson rest) =
        (do return some (← Node.ofJson? n.toJson) :: (← slotsOf? (slotsToJson rest))) := by
      cases eq : n.toJson <;> first | exact absurd eq notNull | rfl
    rw [slotsToJson, item, node, slotsOf?_slotsToJson rest insideRest]
    rfl

end

end ShortForm
