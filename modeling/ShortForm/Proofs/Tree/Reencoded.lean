import ShortForm.Proofs.Tree.Presented
import ShortForm.Proofs.Tree.Recognised

/-!
# Reading, writing and reading again

A tree that was read from a text reads back from its own text, as long as the first text left one
bracket of the limit unused (`ofText_reencoded`). The text that is written may be nested one deeper
than the one that was read: a node is written with its children even if it has none, and a text may
leave them out. At the limit itself this is one bracket too many, as a chain of such texts shows
(`Node.chain`).
-/

namespace ShortForm

open Json

/-! ## What is written when nothing is lost -/

mutual

theorem Node.kept_of_finite : (n : Node) → (∀ x ∈ n.floats, x.isFinite) → n.kept = n
  | ⟨kind, flags, line, children⟩, finite => by
    rw [Node.kept, childrenKept_of_finite children finite]

/-- Of a tree whose doubles are all finite writing keeps everything. -/
theorem Value.kept_of_finite : (v : Value) → (∀ x ∈ v.floats, x.isFinite) → v.kept = v
  | .null, _ | .bool _, _ | .int _, _ | .string _, _ => rfl
  | .float x, finite => if_pos (finite x List.mem_cons_self)
  | .node n, finite => congrArg Value.node (Node.kept_of_finite n finite)
  | .list slots, finite => congrArg Value.list (slotsKept_of_finite slots finite)

theorem childrenKept_of_finite : (children : List (String × Value)) →
    (∀ x ∈ childrenFloats children, x.isFinite) → childrenKept children = children
  | [], _ => rfl
  | (name, v) :: children, finite => by
    simp only [childrenFloats, List.mem_append] at finite
    rw [childrenKept, Value.kept_of_finite v fun x here => finite x (.inl here),
      childrenKept_of_finite children fun x later => finite x (.inr later)]

theorem slotsKept_of_finite : (slots : List (Option Node)) →
    (∀ x ∈ slotsFloats slots, x.isFinite) → slotsKept slots = slots
  | [], _ => rfl
  | none :: slots, finite => by
    rw [slotsKept, slotsKept_of_finite slots finite]
  | some n :: slots, finite => by
    simp only [slotsFloats, List.mem_append] at finite
    rw [slotsKept, Node.kept_of_finite n fun x here => finite x (.inl here),
      slotsKept_of_finite slots fun x later => finite x (.inr later)]

end

/-- The text of a tree without doubles spells its JSON value. -/
theorem Value.spelledIn_text {v : Value} (floats : v.floats = []) : v.toJson.SpelledIn v.text :=
  (v.legible_toJson fun x mem => by rw [floats] at mem; cases mem).spelledIn

/-- A text that is nested too deeply is refused for that, whatever it spells. -/
theorem Value.ofText_of_deep {j : Json} {text : String} (spelled : j.SpelledIn text)
    (deep : maxDepth < j.nesting) : Value.ofText text = .error (.malformed .tooDeep) := by
  obtain ⟨_, _, run⟩ := spelled.read
  rw [Value.ofText_eq, run, within_of_lt deep]
  rfl

/-! ## The limit -/

/-- Names in each other, this many of them around the innermost. -/
def Node.chain : Nat → Node
  | 0 => ⟨.name, .zero, 0, []⟩
  | k + 1 => ⟨.name, .zero, 0, [("name", .node (chain k))]⟩

/-- A presentation of `Node.chain` that leaves out what can be left out. -/
def Json.chain : Nat → Json
  | 0 => .object [(Field.kind.name, .string Kind.name.tag)]
  | k + 1 => .object [(Field.kind.name, .string Kind.name.tag),
      (Field.children.name, .object [("name", chain k)])]

theorem Json.nesting_chain (k : Nat) : (Json.chain k).nesting = 2 * k + 1 := by
  induction k with
  | zero => rfl
  | succ k ih =>
    simp only [Json.chain, nesting, membersNesting, ih]
    omega

theorem Node.nesting_toJson_chain (k : Nat) : (Node.chain k).toJson.nesting = 2 * k + 2 := by
  induction k with
  | zero => rfl
  | succ k ih =>
    rw [Node.nesting_toJson]
    simp only [Node.chain, childrenToJson, Value.toJson, membersNesting, ih]
    omega

theorem Node.floats_chain (k : Nat) : (Node.chain k).floats = [] := by
  induction k with
  | zero => rfl
  | succ k ih => simp [Node.chain, Node.floats, childrenFloats, Value.floats, ih]

theorem Json.legible_chain (k : Nat) : (Json.chain k).Legible := by
  induction k with
  | zero => exact .object (List.forall_mem_singleton.mpr (.string _))
  | succ k ih =>
    exact .object (List.forall_mem_cons.mpr ⟨.string _,
      List.forall_mem_singleton.mpr (.object (List.forall_mem_singleton.mpr ih))⟩)

theorem Node.ofJson?_chain (k : Nat) : Node.ofJson? (Json.chain k) = some (Node.chain k) := by
  induction k with
  | zero =>
    simp only [Json.chain, Node.ofJson?, fieldsOf?, Field.ofName?_name, Fields.has, Json.kind?_tag]
    rfl
  | succ k ih =>
    have inner : Value.ofJson? (Json.chain k) = some (.node (Node.chain k)) :=
      Value.ofJson?_eq_node.mpr ih
    simp only [Json.chain, Node.ofJson?, fieldsOf?, Field.ofName?_name, Fields.has, Json.kind?_tag,
      childrenOf?, childrenOfMembers?, inner]
    rfl

/-- **A tree that was read reads back.** If a text is nested at most 126 deep and holds a value
without doubles, the text of that value holds the value again, and is nested at most one deeper. At
127 this is no longer so: there is a text that holds a value whose own text is nested too deeply. -/
theorem ofText_reencoded :
    (∀ text v, textNesting text ≤ 126 → Value.ofText text = .ok v → v.floats = [] →
      Value.ofText v.text = .ok v ∧ textNesting v.text ≤ textNesting text + 1) ∧
    (∃ text v, textNesting text = 127 ∧ Value.ofText text = .ok v ∧ v.floats = [] ∧
      Value.ofText v.text = .error (.malformed .tooDeep)) ∧
    Fault.tooDeep.message = "recursion limit exceeded" := by
  refine ⟨fun text v shallow ok floats => ?_, ?_, rfl⟩
  · obtain ⟨j, spelled, _, recognised⟩ := Value.ofText_eq_ok_iff.mp ok
    have grows := Value.nesting_toJson_le j v recognised
    have depth := spelled.textNesting
    have written : textNesting v.text = v.toJson.nesting := textNesting_text v.toJson
    have same : v.kept = v := v.kept_of_finite fun x mem => by rw [floats] at mem; cases mem
    have again := Value.ofJson?_toJson v (Value.namesDistinct_of_ofJson? j v recognised)
    rw [same] at again
    refine ⟨Value.ofText_eq_ok_iff.mpr ⟨_, Value.spelledIn_text floats, ?_, again⟩, ?_⟩
    · rw [maxDepth]
      omega
    · omega
  · have spelled := (Json.legible_chain 63).spelledIn
    have floats : (Value.node (Node.chain 63)).floats = [] := Node.floats_chain 63
    have depth : (Json.chain 63).nesting = 127 := Json.nesting_chain 63
    refine ⟨(Json.chain 63).text, .node (Node.chain 63), ?_, ?_, floats, ?_⟩
    · rw [spelled.textNesting, depth]
    · exact Value.ofText_eq_ok_iff.mpr ⟨_, spelled, Nat.le_of_eq depth,
        Value.ofJson?_eq_node.mpr (Node.ofJson?_chain 63)⟩
    · refine Value.ofText_of_deep (Value.spelledIn_text floats) ?_
      have deeper : (Value.node (Node.chain 63)).toJson.nesting = 128 :=
        Node.nesting_toJson_chain 63
      rw [deeper]
      decide

/-- A name that is written without flags, line and children reads back from the text with them. -/
theorem ofText_reencoded_name :
    ∃ v, Value.ofText "\x7b\"kind\":\"AST_NAME\"\x7d" = .ok v ∧ Value.ofText v.text = .ok v ∧
      textNesting v.text ≤ 2 := by
  have spelled := (Json.legible_chain 0).spelledIn
  have text : (Json.chain 0).text = "\x7b\"kind\":\"AST_NAME\"\x7d" := by decide +kernel
  have depth : (Json.chain 0).nesting = 1 := rfl
  rw [text] at spelled
  have ok : Value.ofText "\x7b\"kind\":\"AST_NAME\"\x7d" = .ok (.node (Node.chain 0)) :=
    Value.ofText_eq_ok_iff.mpr ⟨_, spelled, by rw [depth]; decide,
      Value.ofJson?_eq_node.mpr (Node.ofJson?_chain 0)⟩
  have nesting := spelled.textNesting
  rw [depth] at nesting
  obtain ⟨again, grows⟩ := ofText_reencoded.1 _ _ (by rw [nesting]; decide) ok (Node.floats_chain 0)
  exact ⟨_, ok, again, by rw [nesting] at grows; exact grows⟩

end ShortForm
