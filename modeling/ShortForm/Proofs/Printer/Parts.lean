import ShortForm.Proofs.Printer.Piece
import ShortForm.Proofs.Tree.Build

/-!
# The text of an array, slot by slot

The text of an array comes down to the texts of its slots, and the text of a slot to those of the
value and the key in it (`render_array`, `slotText_of_arrayElem`). The texts are those of the pieces
that the renderers give.
-/

namespace ShortForm.Printer

open Piece

variable (p : Printer)

/-- The text of a part. -/
def partText {n : Node} : Part n → String
  | .text s => s
  | .hole => p.placeholder
  | .value v _ => p.render v

/-- The text of parts, one behind the other. -/
def partsText {n : Node} (parts : List (Part n)) : String := String.join (parts.map p.partText)

/-- The evidence in the parts does not matter for their text. -/
theorem partsText_eq {n : Node} (parts : List (Part n)) :
    p.partsText parts = p.piecesText (parts.map Part.piece) := by
  rw [partsText, piecesText, List.map_map]
  exact congrArg _ (List.map_congr_left fun part _ => by cases part <;> rfl)

theorem piecesText_singleton (piece : Piece) : p.piecesText [piece] = p.pieceText piece := by
  rw [piecesText, List.map_singleton, String.join_cons, String.join_nil, String.append_empty]

/-- The text of a node in a slot. -/
def slotText (m : Node) : String :=
  if m.kind = .arrayElem then p.partsText (Renderer.arrayElem m) else p.renderNode m

/-- The texts of the slots that a child of an array stands for. -/
def slotTexts : Value → List String
  | .null => [""]
  | .list slots => slots.map fun slot => slot.elim "" p.slotText
  | .node m => [p.slotText m]
  | v => [p.render v]

/-- A node in a slot that is no element is shown as it is elsewhere. -/
theorem slotText_of_ne {m : Node} (other : m.kind ≠ .arrayElem) : p.slotText m = p.renderNode m :=
  if_neg other

theorem slotText_eq (m : Node) : p.slotText m = p.piecesText (ofArraySlot (.node m)) := by
  by_cases element : m.kind = .arrayElem
  · rw [slotText, if_pos element, ofArraySlot_element element, partsText_eq,
      Renderer.pieces_arrayElem]
  · rw [slotText_of_ne p element, ofArraySlot_node element, piecesText_singleton]
    rfl

theorem slotTexts_eq (v : Value) :
    p.slotTexts v = v.slots.map fun slot => p.piecesText (ofArraySlot slot) := by
  cases v with
  | null => rfl
  | list slots =>
    rw [slotTexts, Value.slots, List.map_map]
    refine List.map_congr_left fun slot _ => ?_
    cases slot with
    | none => rfl
    | some m => exact p.slotText_eq m
  | node m => exact congrArg (fun text => [text]) (p.slotText_eq m)
  | _ => exact congrArg (fun text => [text]) (p.piecesText_singleton (.value _)).symm

/-- **The text of an array is made of the texts of its slots.** -/
theorem render_array {n : Node} (served : p.registry.find? n.kind = some Renderer.array) :
    p.render (.node n) =
      let slots := ",".intercalate (n.children.flatMap fun entry => p.slotTexts entry.2)
      match ArrayForm.ofFlags n.flags with
      | .short | .long => "[" ++ slots ++ "]"
      | .list => "list(" ++ slots ++ ")" := by
  have slots : (n.slots.map ofArraySlot).map p.piecesText =
      n.children.flatMap fun entry => p.slotTexts entry.2 := by
    simp only [slotTexts_eq, Node.slots, List.map_flatMap, List.map_map, Function.comp_def]
  rw [render_eq, Registry.pieces, served]
  simp only [Renderer.pieces_array, piecesText_bracketed, slots]
  cases ArrayForm.ofFlags n.flags <;> rfl

theorem pieceText_ofValue? (n : Node) (name : String) :
    p.pieceText (ofValue? (n.child? name)) = p.renderChild n name := by
  rw [renderChild]
  cases n.child? name <;> rfl

/-- An element shows the child that is its value, behind its key if it has one that is not null. -/
theorem slotText_of_arrayElem {m : Node} (element : m.kind = .arrayElem) :
    p.slotText m =
      match m.child? "key" with
      | none | some .null => p.renderChild m "value"
      | some key => p.render key ++ "=>" ++ p.renderChild m "value" := by
  have value : p.piecesText [ofValue? (m.child? "value")] = p.renderChild m "value" := by
    rw [piecesText_singleton, pieceText_ofValue?]
  rw [slotText_eq, ofArraySlot_element element, ofElement, piecesText_append, value]
  split
  · simp [*, ofKey?, piecesText]
  · simp [*, ofKey?, piecesText]
  · next key notNull found =>
    rw [found, ofKey?_some notNull, piecesText_cons, piecesText_singleton]
    rfl

/-- An element that was built shows the value it was built of, behind the key if there is one that
is not null. -/
theorem slotText_arrayElem (value : Value) (key : Option Value) :
    p.slotText (.arrayElem value key) =
      match key with
      | none | some .null => p.render value
      | some key => p.render key ++ "=>" ++ p.render value := by
  have child : p.renderChild (.arrayElem value key) "value" = p.render value := by
    simp [renderChild, Node.arrayElem_eq, Node.child?, Named.get?]
  have found : (Node.arrayElem value key).child? "key" = some (key.getD .null) := by
    simp [Node.arrayElem_eq, Node.child?, Named.get?]
  rw [slotText_of_arrayElem p (by rw [Node.arrayElem_eq]), found, child]
  cases key with
  | none => rfl
  | some key => cases key <;> rfl

/-- An array that was built shows its slots in their order, and nothing for an empty one. -/
theorem render_builtArray (served : p.registry.find? .array = some Renderer.array)
    (form : ArrayForm) (slots : List (Option Node)) :
    p.render (.node (.array form slots)) =
      let texts := ",".intercalate (slots.map fun slot => slot.elim "" p.slotText)
      match form with
      | .short | .long => "[" ++ texts ++ "]"
      | .list => "list(" ++ texts ++ ")" := by
  have one (slot : Option Node) :
      p.slotTexts (Node.ofSlot slot) = [slot.elim "" p.slotText] := by
    cases slot <;> rfl
  have children : (Node.array form slots).children.flatMap (fun entry => p.slotTexts entry.2) =
      slots.map fun slot => slot.elim "" p.slotText := by
    rw [Node.array_eq, Node.positioned, List.flatMap_map]
    simp only [one, ← List.map_eq_flatMap]
    conv => rhs; rw [← List.zipIdx_map_fst 0 slots, List.map_map]
    rfl
  have flags : (Node.array form slots).flags = form.flags := by rw [Node.array_eq]
  rw [p.render_array (by rw [Node.array_eq]; exact served), children, flags,
    ArrayForm.ofFlags_flags]

/-- **An array that is built loses no slot**: it has as many children as slots, the children stand
and are found under the positions of the slots, and all slots are shown in their order. An empty
slot shows nothing, an element its value, behind its key if it has one that is not null, and any
other node what it shows elsewhere. -/
theorem builtArray_slots (form : ArrayForm) (slots : List (Option Node)) :
    let n := Node.array form slots
    n.children.length = slots.length ∧
    (∀ i : Nat, n.children[i]? = slots[i]?.map fun slot => (toString i, Node.ofSlot slot)) ∧
    (∀ (i : Nat) slot, slots[i]? = some slot →
      n.child? (toString i) = some (Node.ofSlot slot)) ∧
    (∀ name, n.child? name ≠ none → ∃ i < slots.length, name = toString i) ∧
    ∀ p : Printer,
      (p.registry.find? .array = some Renderer.array →
        p.render (.node n) =
          let texts := ",".intercalate (slots.map fun slot => slot.elim "" p.slotText)
          match form with
          | .short | .long => "[" ++ texts ++ "]"
          | .list => "list(" ++ texts ++ ")") ∧
      (∀ m : Node, m.kind ≠ .arrayElem → p.slotText m = p.renderNode m) ∧
      (∀ m : Node, m.kind = .arrayElem →
        p.slotText m =
          match m.child? "key" with
          | none | some .null => p.renderChild m "value"
          | some key => p.render key ++ "=>" ++ p.renderChild m "value") ∧
      ∀ (value : Value) (key : Option Value),
        p.slotText (.arrayElem value key) =
          match key with
          | none | some .null => p.render value
          | some key => p.render key ++ "=>" ++ p.render value := by
  refine ⟨Node.length_children_array form slots, Node.getElem?_children_array form slots,
    fun i slot here => Node.child?_array_eq_some_iff.mpr ⟨i, slot, here, rfl, rfl⟩,
    fun name present => ?_, fun p => ⟨fun served => p.render_builtArray served form slots,
      fun _ => p.slotText_of_ne, fun _ => p.slotText_of_arrayElem, p.slotText_arrayElem⟩⟩
  obtain ⟨v, found⟩ := Option.ne_none_iff_exists'.mp present
  obtain ⟨i, slot, here, rfl, _⟩ := Node.child?_array_eq_some_iff.mp found
  exact ⟨i, (List.getElem?_eq_some_iff.mp here).1, rfl⟩

/-- Behind ten empty slots there are an element and a node that is no element. -/
theorem builtArray_slots_twelve :
    let constant (text : String) : Node := .constant (.name text .bare)
    let element : Node := .arrayElem (.int 7) (some (.string "k"))
    let slots : List (Option Node) := .replicate 10 none ++ [some element, some (constant "A")]
    let n := Node.array .list slots
    n.children.length = 12 ∧ slots[10]? = some (some element) ∧
      n.child? "10" = some (.node element) ∧ n.child? "9" = some .null ∧
      (standard "?").registry.find? .array = some Renderer.array ∧
      (standard "?").slotText (constant "A") = "A" ∧
      (standard "?").slotText element = "'k'=>7" ∧
      (standard "?").render (.node n) = "list(,,,,,,,,,,'k'=>7,A)" := by
  intro constant element slots n
  obtain ⟨length, _, found, _, ofPrinter⟩ := builtArray_slots .list slots
  obtain ⟨shown, others, _, elements⟩ := ofPrinter (standard "?")
  refine ⟨length, rfl, found 10 (some element) rfl, found 9 none rfl, rfl, ?_, ?_, ?_⟩
  · rw [others (constant "A") (by decide)]
    decide +kernel
  · rw [elements]
    decide +kernel
  · rw [shown rfl]
    decide +kernel

end ShortForm.Printer
