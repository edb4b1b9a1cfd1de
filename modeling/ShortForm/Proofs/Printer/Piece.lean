import ShortForm.Tree.Build
import ShortForm.Printer

/-!
# One step of printing

What a renderer says about a node, and what a printer does with it, is one step: some texts, some
holes, and some values whose own texts are still to come. A list is printed in such a step too, and
a scalar in one that asks for nothing. So a printer is known by its steps (`Printer.render_eq`), and
what is shown of every value follows from what one step keeps (`Registry.pieces_induction`).

A part of a node carries the evidence that its value lies inside the node. A piece is a part without
it: the pieces of two nodes can be compared, and whether a step only turns to values inside is
something to be proved of pieces.
-/

namespace ShortForm

/-- A part of a text, whatever the text is about. -/
inductive Piece where
  /-- This text. -/
  | text (s : String)
  /-- Something that cannot be shown. -/
  | hole
  /-- The text of a value. -/
  | value (v : Value)

/-- The part without the evidence that its value lies inside the node. -/
def Part.piece {n : Node} : Part n → Piece
  | text s => .text s
  | hole => .hole
  | value v _ => .value v

/-! ## The pieces of the renderers -/

/-- What a name of this qualification begins with. -/
def Qualification.mark : Qualification → String
  | full => "\\"
  | relative => "namespace\\"
  | bare => ""

/-- What an array in this form begins and ends with. -/
def ArrayForm.brackets : ArrayForm → String × String
  | short | long => ("[", "]")
  | list => ("list(", ")")

/-- The slots that a child of an array stands for. An empty slot is null. -/
def Value.slots : Value → List Value
  | .list slots => slots.map Node.ofSlot
  | v => [v]

/-- The slots of an array, in order. -/
def Node.slots (n : Node) : List Value := n.children.flatMap fun entry => entry.2.slots

namespace Piece

/-- The value, or a hole where there is none. -/
def ofValue? (found : Option Value) : Piece := found.elim hole value

/-- The text, or a hole where there is none. -/
def ofString? (found : Option String) : Piece := found.elim hole text

/-- Slots with commas between them, in brackets. -/
def bracketed (brackets : String × String) (slots : List (List Piece)) : List Piece :=
  text brackets.1 :: ([text ","].intercalate slots ++ [text brackets.2])

/-- A slot of a list that stands by itself. -/
def ofListSlot : Option Node → Piece
  | none => text "null"
  | some m => value (.node m)

/-- What an element of an array shows of its key. A null key is none. -/
def ofKey? : Option Value → List Piece
  | none | some .null => []
  | some key => [value key, text "=>"]

/-- The pieces of an element of an array: its value, behind its key if it has one. -/
def ofElement (m : Node) : List Piece :=
  ofKey? (m.child? "key") ++ [ofValue? (m.child? "value")]

/-- The pieces of a slot of an array. -/
def ofArraySlot : Value → List Piece
  | .null => []
  | .node m => if m.kind = .arrayElem then ofElement m else [value (.node m)]
  | v => [value v]

theorem ofKey?_some {key : Value} (notNull : key ≠ .null) :
    ofKey? (some key) = [value key, text "=>"] := by
  cases key with
  | null => exact absurd rfl notNull
  | _ => rfl

theorem ofArraySlot_element {m : Node} (element : m.kind = .arrayElem) :
    ofArraySlot (.node m) = ofElement m :=
  if_pos element

theorem ofArraySlot_node {m : Node} (notElement : m.kind ≠ .arrayElem) :
    ofArraySlot (.node m) = [value (.node m)] :=
  if_neg notElement

end Piece

open Piece

/-! ## Lookups -/

namespace Node

variable {n : Node} {name : String}

theorem childNode?_eq_some {m : Node} :
    n.childNode? name = some m ↔ n.child? name = some (.node m) := by
  unfold childNode?
  cases n.child? name with
  | none => simp
  | some v => cases v <;> simp [Value.node?]

theorem childString?_eq_some {s : String} :
    n.childString? name = some s ↔ n.child? name = some (.string s) := by
  unfold childString?
  cases n.child? name with
  | none => simp
  | some v => cases v <;> simp [Value.string?]

end Node

/-! ## Lists with separators -/

section Separated

variable {α β : Type} (separator : List α)

/-- The first list is followed by the others, each behind a separator. -/
theorem intercalate_cons (first : List α) (lists : List (List α)) :
    separator.intercalate (first :: lists) = first ++ lists.flatMap (separator ++ ·) := by
  induction lists generalizing first with
  | nil => simp
  | cons second lists ih =>
    rw [List.intercalate_cons_cons, ih, List.flatMap_cons, List.append_assoc, List.append_assoc]

/-- The lists before one stand in front of it, those after it behind, whatever it is. -/
theorem intercalate_append_cons (before after : List (List α)) (list : List α) :
    separator.intercalate (before ++ list :: after) =
      before.flatMap (· ++ separator) ++ list ++ after.flatMap (separator ++ ·) := by
  induction before with
  | nil => exact intercalate_cons separator list after
  | cons first before ih =>
    rw [List.cons_append, intercalate_cons, List.flatMap_cons]
    cases before with
    | nil => simp
    | cons second before =>
      rw [List.cons_append, intercalate_cons] at ih
      rw [List.cons_append, List.flatMap_cons, List.append_assoc separator, ih]
      simp

theorem map_intercalate (f : α → β) (lists : List (List α)) :
    (separator.intercalate lists).map f =
      (separator.map f).intercalate (lists.map (List.map f)) := by
  cases lists with
  | nil => rfl
  | cons first lists =>
    rw [intercalate_cons, List.map_cons, intercalate_cons, List.map_append, List.map_flatMap,
      List.flatMap_map]
    simp only [List.map_append]

end Separated

/-- What is no comma and no bracket comes from a slot. -/
theorem Piece.mem_bracketed {brackets : String × String} {slots : List (List Piece)}
    {piece : Piece} (inner : piece ∉ [text brackets.1, text ",", text brackets.2]) :
    piece ∈ bracketed brackets slots ↔ ∃ slot ∈ slots, piece ∈ slot := by
  simp only [List.mem_cons, List.not_mem_nil, or_false, not_or] at inner
  obtain ⟨notOpening, notComma, notClosing⟩ := inner
  cases slots with
  | nil => simp [bracketed, notOpening, notClosing]
  | cons first slots =>
    simp [bracketed, intercalate_cons, notOpening, notComma, notClosing]

/-! ## Values among pieces -/

namespace Piece

variable {v : Value}

@[simp] theorem value_eq_ofValue?_iff {found : Option Value} :
    value v = ofValue? found ↔ found = some v := by
  cases found <;> simp [ofValue?, eq_comm]

@[simp] theorem value_ne_ofString? {found : Option String} : value v ≠ ofString? found := by
  cases found <;> simp [ofString?]

theorem value_mem_ofKey?_iff {found : Option Value} :
    value v ∈ ofKey? found ↔ found = some v ∧ v ≠ .null := by
  cases found with
  | none => simp [ofKey?]
  | some key => cases key <;> simp +contextual [ofKey?, eq_comm]

theorem value_mem_ofElement_iff {m : Node} :
    value v ∈ ofElement m ↔
      m.child? "value" = some v ∨ (m.child? "key" = some v ∧ v ≠ .null) := by
  simp [ofElement, value_mem_ofKey?_iff, or_comm]

end Piece

/-! ## The pieces of parts -/

namespace Part

variable {n : Node}

@[simp] theorem piece_outward {m : Node} (inside : (Value.node m).Inside n) (part : Part m) :
    (part.outward inside).piece = part.piece := by
  cases part <;> rfl

theorem piece_child (name : String) : (child n name).piece = ofValue? (n.child? name) := by
  unfold child
  split <;> simp_all [piece, ofValue?]

theorem piece_childNode (name : String) :
    (childNode n name).piece = ofValue? ((n.childNode? name).map .node) := by
  unfold childNode Node.childNode?
  split
  · simp_all [piece, ofValue?, Value.node?]
  · next other =>
    cases found : n.child? name with
    | none => rfl
    | some v =>
      cases v with
      | node m => exact absurd found (other m)
      | _ => rfl

theorem piece_childString (name : String) :
    (childString n name).piece = ofString? (n.childString? name) := by
  unfold childString
  split <;> simp_all [piece, ofString?]

end Part

namespace Renderer

theorem pieces_name (n : Node) :
    (name n).map Part.piece =
      [.text (Qualification.ofFlags n.flags).mark, ofString? (n.childString? "name")] := by
  unfold name
  cases Qualification.ofFlags n.flags <;>
    simp only [List.map_cons, List.map_nil, Part.piece_childString] <;> rfl

theorem pieces_constant (n : Node) :
    (constant n).map Part.piece = [ofValue? ((n.childNode? "name").map .node)] := by
  simp only [constant, List.map_cons, List.map_nil, Part.piece_childNode]

theorem pieces_classConst (n : Node) :
    (classConst n).map Part.piece =
      [ofValue? ((n.childNode? "class").map .node), .text "::",
        ofString? (n.childString? "const")] := by
  simp only [classConst, List.map_cons, List.map_nil, Part.piece_childNode,
    Part.piece_childString]
  rfl

theorem pieces_arrayElem (m : Node) : (arrayElem m).map Part.piece = ofElement m := by
  unfold arrayElem ofElement
  split
  · simp only [*, ofKey?, List.map_cons, List.map_nil, Part.piece_child, List.nil_append]
  · simp only [*, ofKey?, List.map_cons, List.map_nil, Part.piece_child, List.nil_append]
  · next key notNull found =>
    have keyed : ofKey? (m.child? "key") = [.value key, .text "=>"] := by
      rw [found, ofKey?_some notNull]
    rw [keyed]
    simp only [List.map_cons, List.map_nil, Part.piece_child]
    rfl

theorem pieces_slotNode {n m : Node} (inside : (Value.node m).Inside n) :
    (slotNode m inside).map Part.piece = ofArraySlot (.node m) := by
  by_cases element : m.kind = .arrayElem
  · simp only [slotNode, if_pos element, ofArraySlot_element element, ← pieces_arrayElem m,
      List.map_map, Function.comp_def, Part.piece_outward]
  · simp only [slotNode, if_neg element, ofArraySlot_node element]
    rfl

theorem pieces_childSlots {n : Node} {name : String} {v : Value} (mem : (name, v) ∈ n.children) :
    (childSlots v mem).map (List.map Part.piece) = v.slots.map ofArraySlot := by
  cases v with
  | list slots =>
    have slot (entry : { slot // slot ∈ slots }) :
        (listSlot mem entry.1 entry.2).map Part.piece = ofArraySlot (Node.ofSlot entry.1) := by
      obtain ⟨slot, slotMem⟩ := entry
      cases slot with
      | none => rfl
      | some m => exact pieces_slotNode (.slot mem slotMem)
    calc (slots.attach.map fun slot => listSlot mem slot.1 slot.2).map (List.map Part.piece)
      _ = slots.attach.map fun entry => ofArraySlot (Node.ofSlot entry.1) := by
        rw [List.map_map]
        exact List.map_congr_left fun entry _ => slot entry
      _ = (slots.map Node.ofSlot).map ofArraySlot := by
        rw [List.attach_map_val (f := fun slot => ofArraySlot (Node.ofSlot slot)), List.map_map]
        rfl
  | node m => exact congrArg (fun slot => [slot]) (pieces_slotNode (.child mem))
  | _ => rfl

/-- The slots of an array, each as its own pieces. -/
theorem pieces_arraySlots (n : Node) :
    (arraySlots n).map (List.map Part.piece) = n.slots.map ofArraySlot := by
  unfold arraySlots Node.slots
  calc (n.children.attach.flatMap fun entry =>
      childSlots entry.1.2 entry.2).map (List.map Part.piece)
    _ = n.children.attach.flatMap fun entry => entry.1.2.slots.map ofArraySlot := by
      rw [List.map_flatMap]
      exact congrArg (List.flatMap · _) (funext fun entry => pieces_childSlots entry.2)
    _ = (n.children.flatMap fun entry => entry.2.slots).map ofArraySlot := by
      rw [List.map_flatMap, List.flatMap_def, List.flatMap_def,
        ← List.attach_map_val (l := n.children) (f := fun entry => entry.2.slots.map ofArraySlot)]

/-- **The pieces of an array are those of its slots, with commas and brackets.** -/
theorem pieces_array (n : Node) :
    (array n).map Part.piece =
      bracketed (ArrayForm.ofFlags n.flags).brackets (n.slots.map ofArraySlot) := by
  have slots : ([.text ","].intercalate (arraySlots n)).map Part.piece =
      [.text ","].intercalate (n.slots.map ofArraySlot) := by
    rw [map_intercalate, pieces_arraySlots]
    rfl
  unfold array
  cases ArrayForm.ofFlags n.flags <;>
    simp only [List.map_cons, List.map_append, List.map_nil, slots] <;> rfl

end Renderer

/-! ## Steps of a printer -/

namespace Registry

/-- One step of printing a value with these renderers. -/
def pieces (r : Registry) : Value → List Piece
  | .node n =>
    match r.find? n.kind with
    | some renderer => (renderer n).map Part.piece
    | none => [.hole]
  | .list slots => bracketed ("[", "]") (slots.map fun slot => [ofListSlot slot])
  | v => [ofString? v.literal?]

variable {r : Registry}

/-- A step of a node only turns to values inside it. -/
theorem inside_of_mem_pieces {n : Node} {v : Value} (mem : .value v ∈ r.pieces (.node n)) :
    v.Inside n := by
  rw [pieces] at mem
  split at mem
  · obtain ⟨part, _, piece⟩ := List.mem_map.mp mem
    cases part with
    | value w inside =>
      cases piece
      exact inside
    | _ => cases piece
  · simp at mem

/-- A step of a list only turns to the nodes in its slots. -/
theorem slot_of_mem_pieces {slots : List (Option Node)} {v : Value}
    (mem : .value v ∈ r.pieces (.list slots)) : ∃ m, some m ∈ slots ∧ v = .node m := by
  rw [pieces, mem_bracketed (by simp)] at mem
  obtain ⟨_, shown, piece⟩ := mem
  obtain ⟨slot, slotMem, rfl⟩ := List.mem_map.mp shown
  cases slot with
  | none => simp [ofListSlot] at piece
  | some m => exact ⟨m, slotMem, by simpa [ofListSlot] using piece⟩

/-- A step only turns to values that are smaller. -/
theorem sizeOf_lt_of_mem_pieces {v w : Value} (mem : .value w ∈ r.pieces v) :
    sizeOf w < sizeOf v := by
  cases v with
  | node n =>
    have smaller := (inside_of_mem_pieces mem).sizeOf_lt
    simp only [Value.node.sizeOf_spec]
    omega
  | list slots =>
    obtain ⟨m, slotMem, rfl⟩ := slot_of_mem_pieces mem
    exact Value.sizeOf_slot_lt slotMem
  | _ => simp [pieces, ofString?, Value.literal?] at mem

/-- **What one step keeps holds of every value.** -/
theorem pieces_induction {motive : Value → Prop}
    (step : ∀ v, (∀ w, .value w ∈ r.pieces v → motive w) → motive v) (v : Value) : motive v :=
  step v fun w _ => pieces_induction step w
termination_by sizeOf v
decreasing_by exact sizeOf_lt_of_mem_pieces ‹_›

/-! ### The standard registry -/

/-- A kind is one of the four that have a renderer, or it has none. -/
theorem standard_cases (kind : Kind) :
    kind = .name ∨ kind = .const ∨ kind = .classConst ∨ kind = .array ∨
      standard.find? kind = none := by
  simp only [standard]
  unfold Renderer.ofKind?
  split <;> simp

variable {n : Node}

theorem pieces_of_name (kind : n.kind = .name) :
    standard.pieces (.node n) =
      [.text (Qualification.ofFlags n.flags).mark, ofString? (n.childString? "name")] := by
  simp only [pieces, kind, standard, Renderer.ofKind?, Renderer.pieces_name]

theorem pieces_of_const (kind : n.kind = .const) :
    standard.pieces (.node n) = [ofValue? ((n.childNode? "name").map .node)] := by
  simp only [pieces, kind, standard, Renderer.ofKind?, Renderer.pieces_constant]

theorem pieces_of_classConst (kind : n.kind = .classConst) :
    standard.pieces (.node n) =
      [ofValue? ((n.childNode? "class").map .node), .text "::",
        ofString? (n.childString? "const")] := by
  simp only [pieces, kind, standard, Renderer.ofKind?, Renderer.pieces_classConst]

theorem pieces_of_array (kind : n.kind = .array) :
    standard.pieces (.node n) =
      bracketed (ArrayForm.ofFlags n.flags).brackets (n.slots.map ofArraySlot) := by
  simp only [pieces, kind, standard, Renderer.ofKind?, Renderer.pieces_array]

theorem pieces_of_find?_eq_none (noRenderer : r.find? n.kind = none) :
    r.pieces (.node n) = [.hole] := by
  simp only [pieces, noRenderer]

end Registry

namespace Printer

/-- The printer of the standard registry with a placeholder of its own. -/
def standard (placeholder : String) : Printer := { options := { placeholder } }

variable (p : Printer)

/-- The text of a piece. -/
def pieceText : Piece → String
  | .text s => s
  | .hole => p.placeholder
  | .value v => p.render v

/-- The text of pieces, one behind the other. -/
def piecesText (pieces : List Piece) : String := String.join (pieces.map p.pieceText)

theorem piecesText_append (before after : List Piece) :
    p.piecesText (before ++ after) = p.piecesText before ++ p.piecesText after := by
  rw [piecesText, piecesText, piecesText, List.map_append, String.join_append]

theorem piecesText_cons (piece : Piece) (pieces : List Piece) :
    p.piecesText (piece :: pieces) = p.pieceText piece ++ p.piecesText pieces := by
  rw [piecesText, piecesText, List.map_cons, String.join_cons]

theorem piecesText_intercalate (separator : List Piece) (slots : List (List Piece)) :
    p.piecesText (separator.intercalate slots) =
      (p.piecesText separator).intercalate (slots.map p.piecesText) := by
  induction slots with
  | nil => rfl
  | cons first slots ih =>
    cases slots with
    | nil => rw [List.intercalate_singleton, List.map_singleton, String.intercalate_singleton]
    | cons second slots =>
      rw [List.intercalate_cons_cons, piecesText_append, piecesText_append, ih]
      simp only [List.map_cons, String.intercalate_cons_cons]

theorem piecesText_bracketed (brackets : String × String) (slots : List (List Piece)) :
    p.piecesText (bracketed brackets slots) =
      brackets.1 ++ ",".intercalate (slots.map p.piecesText) ++ brackets.2 := by
  have comma : p.piecesText [.text ","] = "," := by simp [piecesText, pieceText]
  rw [bracketed, piecesText_cons, piecesText_append, piecesText_intercalate, comma,
    ← String.append_assoc]
  simp [piecesText, pieceText]

/-- A scalar is shown by its literal. -/
theorem render_of_literal {v : Value} {text : String} (literal : v.literal? = some text) :
    p.render v = text := by
  cases v with
  | node n => cases literal
  | list slots => cases literal
  | _ =>
    rw [render, literal, Option.getD_some]
    all_goals (intros; simp_all)

/-- **The short form of a value is made of its pieces.** -/
theorem render_eq (v : Value) : p.render v = p.piecesText (p.registry.pieces v) := by
  cases v with
  | node n =>
    rw [render, Registry.pieces]
    cases p.registry.find? n.kind with
    | none => simp [piecesText, pieceText]
    | some renderer =>
      simp only [piecesText, List.map_map]
      exact congrArg _ (List.map_congr_left fun part _ => by cases part <;> rfl)
  | list slots =>
    rw [render, Registry.pieces, piecesText_bracketed, List.map_map]
    refine congrArg (fun texts => "[" ++ ",".intercalate texts ++ "]") ?_
    rw [← List.attach_map_val (l := slots)]
    refine List.map_congr_left fun here _ => ?_
    obtain ⟨slot, _⟩ := here
    cases slot <;> simp [piecesText, pieceText, ofListSlot]
  | _ =>
    rw [p.render_of_literal rfl]
    simp [Registry.pieces, piecesText, pieceText, Value.literal?, ofString?]

end Printer

end ShortForm
