import ShortForm.Proofs.Printer.Skeleton

/-!
# Well-shaped trees

A tree is well-shaped when every node that is shown has what its renderer looks for. This is said of
the tree alone, without a word about printing. The placeholder is used just when a tree is not
well-shaped: the skeleton of a value has no hole if and only if the value is well-shaped.

Both sides go by steps. One step leaves no hole and turns to well-shaped values only, if and only if
the value it starts from is well-shaped (`Value.isWellShaped_iff`).
-/

namespace ShortForm

open Piece

mutual

/-- Everything that is shown of the value is there and of the expected shape. -/
inductive Value.IsWellShaped : Value → Prop where
  | scalar {v : Value} (isScalar : v.isScalar) : IsWellShaped v
  | list {slots : List (Option Node)}
      (nodes : ∀ m, some m ∈ slots → IsWellShaped (.node m)) : IsWellShaped (.list slots)
  | name {n : Node} {s : String} (kind : n.kind = .name)
      (found : n.child? "name" = some (.string s)) : IsWellShaped (.node n)
  | const {n m : Node} (kind : n.kind = .const) (found : n.child? "name" = some (.node m))
      (shaped : IsWellShaped (.node m)) : IsWellShaped (.node n)
  | classConst {n m : Node} {s : String} (kind : n.kind = .classConst)
      (owner : n.child? "class" = some (.node m)) (shaped : IsWellShaped (.node m))
      (found : n.child? "const" = some (.string s)) : IsWellShaped (.node n)
  | array {n : Node} (kind : n.kind = .array)
      (slots : ∀ v ∈ n.slots, IsWellShapedSlot v) : IsWellShaped (.node n)

/-- The same of a slot of an array, where null stands for an empty slot and an element has its
place. -/
inductive Value.IsWellShapedSlot : Value → Prop where
  | empty : IsWellShapedSlot .null
  | value {v : Value} (shaped : IsWellShaped v) : IsWellShapedSlot v
  | element {m : Node} {v : Value} (kind : m.kind = .arrayElem)
      (found : m.child? "value" = some v) (shaped : IsWellShaped v)
      (key : ∀ k, m.child? "key" = some k → k ≠ .null → IsWellShaped k) :
      IsWellShapedSlot (.node m)

end

namespace Piece

/-- The piece is no hole, and if it is a value, the value has the property. -/
def IsShown (shown : Value → Prop) : Piece → Prop
  | text _ => True
  | hole => False
  | value v => shown v

variable {shown : Value → Prop}

@[simp] theorem isShown_text {s : String} : (text s).IsShown shown := trivial

@[simp] theorem not_isShown_hole : ¬ hole.IsShown shown := id

@[simp] theorem isShown_value {v : Value} : (value v).IsShown shown ↔ shown v := Iff.rfl

theorem isShown_ofValue? {found : Option Value} :
    (ofValue? found).IsShown shown ↔ ∃ v, found = some v ∧ shown v := by
  cases found <;> simp [ofValue?]

theorem isShown_ofString? {found : Option String} :
    (ofString? found).IsShown shown ↔ ∃ s, found = some s := by
  cases found <;> simp [ofString?]

theorem isShown_childNode? {n : Node} {name : String} :
    (ofValue? ((n.childNode? name).map .node)).IsShown shown ↔
      ∃ m, n.child? name = some (.node m) ∧ shown (.node m) := by
  simp only [isShown_ofValue?, Option.map_eq_some_iff, ← Node.childNode?_eq_some]
  constructor
  · rintro ⟨_, ⟨m, found, rfl⟩, shaped⟩
    exact ⟨m, found, shaped⟩
  · rintro ⟨m, found, shaped⟩
    exact ⟨_, ⟨m, found, rfl⟩, shaped⟩

theorem isShown_congr {other : Value → Prop} {piece : Piece}
    (same : ∀ v, piece = value v → (shown v ↔ other v)) :
    piece.IsShown shown ↔ piece.IsShown other := by
  cases piece with
  | value v => exact same v rfl
  | _ => exact Iff.rfl

theorem forall_ofElement_isShown {m : Node} :
    (∀ piece ∈ ofElement m, piece.IsShown shown) ↔
      (∃ v, m.child? "value" = some v ∧ shown v) ∧
        ∀ k, m.child? "key" = some k → k ≠ .null → shown k := by
  have key : (∀ piece ∈ ofKey? (m.child? "key"), piece.IsShown shown) ↔
      ∀ k, m.child? "key" = some k → k ≠ .null → shown k := by
    cases m.child? "key" with
    | none => simp [ofKey?]
    | some k => cases k <;> simp [ofKey?]
  simp only [ofElement, List.forall_mem_append, List.forall_mem_singleton, key, isShown_ofValue?,
    and_comm]

/-- The commas and the brackets are shown anyway. -/
theorem forall_bracketed_isShown {brackets : String × String} {slots : List (List Piece)} :
    (∀ piece ∈ bracketed brackets slots, piece.IsShown shown) ↔
      ∀ slot ∈ slots, ∀ piece ∈ slot, piece.IsShown shown := by
  cases slots with
  | nil => simp [bracketed]
  | cons first slots =>
    simp only [bracketed, intercalate_cons, List.forall_mem_cons, List.forall_mem_append,
      List.forall_mem_flatMap, isShown_text]
    simp

end Piece

namespace Value

/-- What a well-shaped node holds, kind by kind. -/
theorem isWellShaped_node_iff {n : Node} :
    IsWellShaped (.node n) ↔
      (n.kind = .name ∧ ∃ s, n.child? "name" = some (.string s)) ∨
      (n.kind = .const ∧ ∃ m, n.child? "name" = some (.node m) ∧ IsWellShaped (.node m)) ∨
      (n.kind = .classConst ∧
        (∃ m, n.child? "class" = some (.node m) ∧ IsWellShaped (.node m)) ∧
        ∃ s, n.child? "const" = some (.string s)) ∨
      (n.kind = .array ∧ ∀ v ∈ n.slots, IsWellShapedSlot v) := by
  constructor
  · intro shaped
    cases shaped with
    | scalar isScalar => cases isScalar
    | name kind found => exact .inl ⟨kind, _, found⟩
    | const kind found shaped => exact .inr (.inl ⟨kind, _, found, shaped⟩)
    | classConst kind owner shaped found =>
      exact .inr (.inr (.inl ⟨kind, ⟨_, owner, shaped⟩, _, found⟩))
    | array kind slots => exact .inr (.inr (.inr ⟨kind, slots⟩))
  · rintro (⟨kind, s, found⟩ | ⟨kind, m, found, shaped⟩ | ⟨kind, ⟨m, owner, shaped⟩, s, found⟩ |
      ⟨kind, slots⟩)
    · exact .name kind found
    · exact .const kind found shaped
    · exact .classConst kind owner shaped found
    · exact .array kind slots

/-- A node of a kind without a renderer is not well-shaped. -/
theorem not_isWellShaped_of_find?_eq_none {n : Node}
    (noRenderer : Registry.standard.find? n.kind = none) : ¬ IsWellShaped (.node n) := by
  rw [isWellShaped_node_iff]
  rintro (⟨kind, _⟩ | ⟨kind, _⟩ | ⟨kind, _⟩ | ⟨kind, _⟩)
  all_goals
    rw [kind] at noRenderer
    cases noRenderer

theorem isWellShapedSlot_iff (v : Value) :
    v.IsWellShapedSlot ↔ ∀ piece ∈ ofArraySlot v, piece.IsShown IsWellShaped := by
  cases v with
  | null => exact iff_of_true .empty (by simp [ofArraySlot])
  | node m =>
    by_cases element : m.kind = .arrayElem
    · simp only [ofArraySlot_element element, forall_ofElement_isShown]
      constructor
      · intro shaped
        cases shaped with
        | value shaped =>
          exact absurd shaped (not_isWellShaped_of_find?_eq_none (element ▸ rfl))
        | element _ found shaped key => exact ⟨⟨_, found, shaped⟩, key⟩
      · rintro ⟨⟨v, found, shaped⟩, key⟩
        exact .element element found shaped key
    · simp only [ofArraySlot_node element, List.forall_mem_singleton, isShown_value]
      refine ⟨fun shaped => ?_, .value⟩
      cases shaped with
      | value shaped => exact shaped
      | element kind => exact absurd kind element
  | _ =>
    simp only [ofArraySlot, List.forall_mem_singleton, isShown_value]
    refine ⟨fun shaped => ?_, .value⟩
    cases shaped with
    | value shaped => exact shaped

/-- **A value is well-shaped just when one step leaves no hole and turns to well-shaped values.** -/
theorem isWellShaped_iff (v : Value) :
    v.IsWellShaped ↔ ∀ piece ∈ Registry.standard.pieces v, piece.IsShown IsWellShaped := by
  cases v with
  | node n =>
    rcases Registry.standard_cases n.kind with kind | kind | kind | kind | noRenderer
    · rw [isWellShaped_node_iff, Registry.pieces_of_name kind]
      simp [kind, isShown_ofString?, Node.childString?_eq_some]
    · rw [isWellShaped_node_iff, Registry.pieces_of_const kind]
      simp [kind, isShown_childNode?]
    · rw [isWellShaped_node_iff, Registry.pieces_of_classConst kind]
      simp [kind, isShown_childNode?, isShown_ofString?, Node.childString?_eq_some]
    · rw [isWellShaped_node_iff, Registry.pieces_of_array kind, forall_bracketed_isShown]
      simp [kind, isWellShapedSlot_iff]
    · rw [Registry.pieces_of_find?_eq_none noRenderer, List.forall_mem_singleton]
      exact iff_of_false (not_isWellShaped_of_find?_eq_none noRenderer) not_isShown_hole
  | list slots =>
    simp only [Registry.pieces, forall_bracketed_isShown, List.forall_mem_map,
      List.forall_mem_singleton]
    constructor
    · intro shaped slot mem
      cases shaped with
      | scalar isScalar => cases isScalar
      | list nodes =>
        cases slot with
        | none => trivial
        | some m => exact nodes m mem
    · exact fun shown => .list fun m mem => shown (some m) mem
  | _ => exact iff_of_true (.scalar rfl) (by simp [Registry.pieces, ofString?, literal?])

end Value

namespace Registry

theorem hole_not_mem_skeleton_iff_pieces (r : Registry) (v : Value) :
    Token.hole ∉ r.skeleton v ↔
      ∀ piece ∈ r.pieces v, piece.IsShown fun w => Token.hole ∉ r.skeleton w := by
  rw [skeleton_eq]
  simp only [List.mem_flatMap, not_exists, not_and]
  refine forall₂_congr fun piece _ => ?_
  cases piece <;> simp [tokens]

/-- The skeleton of a value has no hole just when the value is well-shaped. -/
theorem hole_not_mem_skeleton_iff (v : Value) :
    Token.hole ∉ standard.skeleton v ↔ v.IsWellShaped := by
  induction v using pieces_induction (r := standard) with
  | step v ih =>
    rw [hole_not_mem_skeleton_iff_pieces, Value.isWellShaped_iff]
    refine forall₂_congr fun piece mem => isShown_congr fun w value => ih w (value ▸ mem)

end Registry

/-- **The placeholder is only ever put in, and used just for trees that are not well-shaped.** The
short form is the skeleton of the value with the placeholder in every hole, whatever the placeholder
is. There is no hole, and no difference between placeholders, if and only if the value is
well-shaped. -/
theorem Value.render_same_iff_isWellShaped (v : Value) :
    (∀ placeholder, (Printer.standard placeholder).render v =
      Token.fill placeholder (Registry.standard.skeleton v)) ∧
    (Token.hole ∉ Registry.standard.skeleton v ↔ v.IsWellShaped) ∧
    ((∀ p q, (Printer.standard p).render v = (Printer.standard q).render v) ↔
      v.IsWellShaped) := by
  refine ⟨(Printer.render_standard · v), Registry.hole_not_mem_skeleton_iff v, ?_⟩
  simp only [Printer.render_standard]
  rw [Token.fill_eq_fill_iff, Registry.hole_not_mem_skeleton_iff]

end ShortForm
