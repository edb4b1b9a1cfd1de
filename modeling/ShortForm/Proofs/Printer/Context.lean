import ShortForm.Proofs.Named
import ShortForm.Proofs.Printer.Skeleton

/-!
# Nodes in context

A context is a value with one position left open, in which a node stands: as a child of a node or in
a slot of a list, at any depth. Whatever node is put there, its short form appears in that of the
whole once and in the same place, between the same two texts; or the position is never shown, and
the whole looks the same for all nodes. So what cannot be shown spoils nothing but its own place.

Elements of arrays are left out. An element in a slot of an array is shown by the array, and has no
short form of its own there.
-/

namespace ShortForm

open Piece

/-! ## Contexts -/

/-- A node with one child left open. -/
structure Node.Frame where
  kind : Kind
  flags : Flags
  line : UInt32
  before : List (String × Value)
  name : String
  after : List (String × Value)

/-- The node with a value as that child. -/
def Node.Frame.fill (frame : Node.Frame) (v : Value) : Node :=
  ⟨frame.kind, frame.flags, frame.line, frame.before ++ (frame.name, v) :: frame.after⟩

mutual

/-- A node with one position left open in which a node stands. -/
inductive Node.Context where
  /-- The node itself. -/
  | here
  /-- A position in a child. -/
  | child (frame : Node.Frame) (inner : Value.Context)

/-- A value with one position left open in which a node stands. -/
inductive Value.Context where
  /-- A position in a node. -/
  | node (inner : Node.Context)
  /-- A position in a slot of a list. -/
  | slot (before : List (Option Node)) (inner : Node.Context) (after : List (Option Node))

end

mutual

/-- The node with a node put into the position. -/
def Node.Context.plug : Node.Context → Node → Node
  | .here, n => n
  | .child frame inner, n => frame.fill (inner.plug n)

/-- The value with a node put into the position. -/
def Value.Context.plug : Value.Context → Node → Value
  | .node inner, n => .node (inner.plug n)
  | .slot before inner after, n => .list (before ++ some (inner.plug n) :: after)

end

/-! ## Tokens that show a node in place -/

/-- The tokens hold the skeleton of the node once and in the same place for every node, or they are
the same for all nodes. -/
def ShownInPlace (tokens : Node → List Token) : Prop :=
  (∃ before after, ∀ n : Node, n.kind ≠ .arrayElem →
    tokens n = before ++ Registry.standard.skeleton (.node n) ++ after) ∨
  ∃ same, ∀ n : Node, n.kind ≠ .arrayElem → tokens n = same

namespace ShownInPlace

theorem self : ShownInPlace fun n => Registry.standard.skeleton (.node n) :=
  .inl ⟨[], [], fun n _ => by simp⟩

theorem same (tokens : List Token) : ShownInPlace fun _ => tokens := .inr ⟨tokens, fun _ _ => rfl⟩

variable {tokens other : Node → List Token}

theorem congr (shown : ShownInPlace tokens)
    (eq : ∀ n : Node, n.kind ≠ .arrayElem → other n = tokens n) : ShownInPlace other := by
  rcases shown with ⟨before, after, shown⟩ | ⟨same, shown⟩
  · exact .inl ⟨before, after, fun n notElement => (eq n notElement).trans (shown n notElement)⟩
  · exact .inr ⟨same, fun n notElement => (eq n notElement).trans (shown n notElement)⟩

/-- More tokens on either side leave the node in place. -/
theorem around (shown : ShownInPlace tokens) (front back : List Token) :
    ShownInPlace fun n => front ++ tokens n ++ back := by
  rcases shown with ⟨before, after, shown⟩ | ⟨same, shown⟩
  · refine .inl ⟨front ++ before, after ++ back, fun n notElement => ?_⟩
    simp only [shown n notElement, List.append_assoc]
  · exact .inr ⟨front ++ same ++ back, fun n notElement => by simp only [shown n notElement]⟩

end ShownInPlace

/-! ## Lookups in a frame -/

namespace Node.Frame

variable (frame : Node.Frame) (key : String)

/-- A name leads to the open child, or to the same whatever this child is. -/
theorem child?_fill :
    (frame.name = key ∧ ∀ v, (frame.fill v).child? key = some v) ∨
      ∃ found, ∀ v, (frame.fill v).child? key = found := by
  simp only [child?, fill, Named.get?_append, Named.get?]
  cases Named.get? frame.before key with
  | some w => exact .inr ⟨some w, fun _ => rfl⟩
  | none =>
    by_cases here : frame.name = key
    · exact .inl ⟨here, fun v => by rw [if_pos here]; rfl⟩
    · exact .inr ⟨_, fun v => by rw [if_neg here]⟩

theorem child?_fill_of_ne (other : frame.name ≠ key) :
    ∃ found, ∀ v, (frame.fill v).child? key = found :=
  (frame.child?_fill key).resolve_left fun here => other here.1

end Node.Frame

/-! ## One level of context -/

/-- The tokens of pieces. -/
def Piece.tokens (pieces : List Piece) : List Token := pieces.flatMap Registry.standard.tokens

theorem Piece.tokens_append (before after : List Piece) :
    tokens (before ++ after) = tokens before ++ tokens after :=
  List.flatMap_append

theorem Piece.tokens_cons (piece : Piece) (pieces : List Piece) :
    tokens (piece :: pieces) = Registry.standard.tokens piece ++ tokens pieces :=
  List.flatMap_cons

/-- A slot in place leaves the list of slots in place. -/
theorem ShownInPlace.bracketed {slot : Node → List Piece}
    (shown : ShownInPlace fun n => tokens (slot n)) (brackets : String × String)
    (before after : List (List Piece)) :
    ShownInPlace fun n => tokens (Piece.bracketed brackets (before ++ slot n :: after)) := by
  refine (shown.around
    (tokens (text brackets.1 :: before.flatMap (· ++ [text ","])))
    (tokens (after.flatMap ([text ","] ++ ·) ++ [text brackets.2]))).congr fun n _ => ?_
  rw [Piece.bracketed, intercalate_append_cons, tokens_cons, tokens_cons, tokens_append,
    tokens_append, tokens_append, tokens_append]
  simp only [List.append_assoc]

namespace Value.Context

theorem string?_plug (C : Value.Context) (n : Node) : (C.plug n).string? = none := by
  cases C <;> rfl

theorem plug_ne_null (C : Value.Context) (n : Node) : C.plug n ≠ .null := by
  cases C <;> nofun

/-- The node is in place in what is shown of the value, and in what is shown of the slots that the
value stands for in an array. -/
structure InPlace (C : Value.Context) : Prop where
  whole : ShownInPlace fun n => Registry.standard.skeleton (C.plug n)
  slots : ∀ brackets front back, ShownInPlace fun n =>
    tokens (Piece.bracketed brackets (front ++ ((C.plug n).slots.map ofArraySlot ++ back)))

end Value.Context

/-- The node is in place in what is shown of the other node, by itself and in a slot. -/
structure Node.Context.InPlace (C : Node.Context) : Prop where
  whole : ShownInPlace fun n => Registry.standard.skeleton (.node (C.plug n))
  slot : ShownInPlace fun n => tokens (ofArraySlot (.node (C.plug n)))

namespace Node.Frame

variable (frame : Node.Frame) {C : Value.Context}

theorem slots_fill (v : Value) :
    (frame.fill v).slots =
      frame.before.flatMap (·.2.slots) ++ (v.slots ++ frame.after.flatMap (·.2.slots)) := by
  simp only [Node.slots, fill, List.flatMap_append, List.flatMap_cons]

/-- A text that is looked up is never the open child. -/
theorem childString?_fill (C : Value.Context) (key : String) :
    ∃ found, ∀ n, (frame.fill (C.plug n)).childString? key = found := by
  simp only [childString?]
  rcases frame.child?_fill key with ⟨_, here⟩ | ⟨found, other⟩
  · exact ⟨none, fun n => by rw [here]; exact C.string?_plug n⟩
  · exact ⟨found.bind Value.string?, fun n => by rw [other]⟩

/-- A child that is looked up shows the node in place. -/
theorem child_inPlace (inPlace : C.InPlace) (key : String) : ShownInPlace fun n =>
    Registry.standard.tokens (ofValue? ((frame.fill (C.plug n)).child? key)) := by
  rcases frame.child?_fill key with ⟨_, here⟩ | ⟨found, other⟩
  · exact inPlace.whole.congr fun n _ => by rw [here]; rfl
  · exact (ShownInPlace.same (Registry.standard.tokens (ofValue? found))).congr
      fun n _ => by rw [other]

/-- So does one that has to be a node. -/
theorem childNode_inPlace (inPlace : C.InPlace) (key : String) : ShownInPlace fun n =>
    Registry.standard.tokens
      (ofValue? (((frame.fill (C.plug n)).childNode? key).map Value.node)) := by
  simp only [childNode?]
  rcases frame.child?_fill key with ⟨_, here⟩ | ⟨found, other⟩
  · cases C with
    | node inner => exact inPlace.whole.congr fun n _ => by rw [here]; rfl
    | slot before inner after =>
      exact (ShownInPlace.same [.hole]).congr fun n _ => by rw [here]; rfl
  · exact (ShownInPlace.same
      (Registry.standard.tokens (ofValue? ((found.bind Value.node?).map Value.node)))).congr
      fun n _ => by rw [other]

/-- An element shows the node in place, in its value or in its key. -/
theorem element_inPlace (inPlace : C.InPlace) : ShownInPlace fun n =>
    tokens (ofElement (frame.fill (C.plug n))) := by
  rcases frame.child?_fill "key" with ⟨here, key⟩ | ⟨found, key⟩
  · obtain ⟨found, value⟩ := frame.child?_fill_of_ne "value" (by rw [here]; decide)
    refine (inPlace.whole.around [] (tokens [text "=>", ofValue? found])).congr fun n _ => ?_
    rw [ofElement, key, value, ofKey?_some (C.plug_ne_null n), List.cons_append, tokens_cons]
    rfl
  · refine ((frame.child_inPlace inPlace "value").around (tokens (ofKey? found)) []).congr
      fun n _ => ?_
    rw [ofElement, key, tokens_append, List.append_nil]
    exact congrArg _ (List.flatMap_singleton _ _)

/-- A node around the position shows the node in place. -/
theorem fill_inPlace (inPlace : C.InPlace) : ShownInPlace fun n =>
    Registry.standard.skeleton (.node (frame.fill (C.plug n))) := by
  have whole {pieces : Node → List Piece} (shown : ShownInPlace fun n => tokens (pieces n))
      (step : ∀ n, Registry.standard.pieces (.node (frame.fill (C.plug n))) = pieces n) :
      ShownInPlace fun n => Registry.standard.skeleton (.node (frame.fill (C.plug n))) :=
    shown.congr fun n _ => by rw [Registry.skeleton_eq, step]; rfl
  rcases Registry.standard_cases frame.kind with kind | kind | kind | kind | noRenderer
  · obtain ⟨found, text⟩ := frame.childString?_fill C "name"
    refine whole (.same (tokens [.text (Qualification.ofFlags frame.flags).mark,
      ofString? found])) fun n => ?_
    rw [Registry.pieces_of_name kind, text]
    rfl
  · refine whole ?_ fun n => Registry.pieces_of_const kind
    exact (frame.childNode_inPlace inPlace "name").congr fun n _ => List.flatMap_singleton _ _
  · obtain ⟨found, constant⟩ := frame.childString?_fill C "const"
    refine whole ?_ fun n => by rw [Registry.pieces_of_classConst kind, constant]
    refine ((frame.childNode_inPlace inPlace "class").around []
      (tokens [text "::", ofString? found])).congr fun n _ => ?_
    rw [tokens_cons, List.nil_append]
  · refine whole ?_ fun n => Registry.pieces_of_array kind
    refine (inPlace.slots (ArrayForm.ofFlags frame.flags).brackets
      ((frame.before.flatMap (·.2.slots)).map Piece.ofArraySlot)
      ((frame.after.flatMap (·.2.slots)).map Piece.ofArraySlot)).congr fun n _ => ?_
    rw [frame.slots_fill, List.map_append, List.map_append]
    rfl
  · exact whole (.same _) fun n => Registry.pieces_of_find?_eq_none noRenderer

end Node.Frame

/-! ## Contexts of any depth -/

mutual

/-- A context shows the node in place. -/
theorem Node.Context.inPlace : (C : Node.Context) → C.InPlace
  | .here => by
    refine ⟨.self, ShownInPlace.self.congr fun n notElement => ?_⟩
    rw [Node.Context.plug, ofArraySlot_node notElement]
    exact List.flatMap_singleton _ _
  | .child frame inner => by
    have whole := frame.fill_inPlace inner.inPlace
    refine ⟨whole, ?_⟩
    by_cases element : frame.kind = .arrayElem
    · exact (frame.element_inPlace inner.inPlace).congr fun n _ =>
        congrArg tokens (ofArraySlot_element element)
    · exact whole.congr fun n _ =>
        (congrArg tokens (ofArraySlot_node element)).trans (List.flatMap_singleton _ _)

/-- So does a value around it. -/
theorem Value.Context.inPlace : (C : Value.Context) → C.InPlace
  | .node inner => by
    refine ⟨inner.inPlace.whole, fun brackets front back => ?_⟩
    exact inner.inPlace.slot.bracketed brackets front back
  | .slot before inner after => by
    constructor
    · have item : ShownInPlace fun n => tokens [ofListSlot (some (inner.plug n))] :=
        inner.inPlace.whole.congr fun n _ => List.flatMap_singleton _ _
      refine (item.bracketed ("[", "]") (before.map fun slot => [ofListSlot slot])
        (after.map fun slot => [ofListSlot slot])).congr fun n _ => ?_
      rw [Registry.skeleton_eq, Value.Context.plug, Registry.pieces, List.map_append, List.map_cons]
      rfl
    · intro brackets front back
      let items (slots : List (Option Node)) := (slots.map Node.ofSlot).map ofArraySlot
      refine (inner.inPlace.slot.bracketed brackets (front ++ items before)
        (items after ++ back)).congr fun n _ => ?_
      refine congrArg (fun slots => tokens (Piece.bracketed brackets slots)) ?_
      simp only [items, Value.Context.plug, Value.slots, Node.ofSlot, List.map_append,
        List.map_cons, List.append_assoc, List.cons_append]

end

/-- **What cannot be shown spoils nothing but its own place.** Put into a context, every node that
is no element of an array is shown between the same two texts, and so is the placeholder for a node
without a renderer; or the context does not show the node, and looks the same for all of them. -/
theorem Value.Context.render_plug (C : Value.Context) :
    (∀ placeholder, ∃ before after : String, ∀ n : Node, n.kind ≠ .arrayElem →
      (Printer.standard placeholder).render (C.plug n) =
        before ++ (Printer.standard placeholder).renderNode n ++ after ∧
      (Registry.standard.find? n.kind = none →
        (Printer.standard placeholder).render (C.plug n) = before ++ placeholder ++ after)) ∨
    ∀ placeholder, ∃ same : String, ∀ n : Node, n.kind ≠ .arrayElem →
      (Printer.standard placeholder).render (C.plug n) = same := by
  rcases C.inPlace.whole with ⟨before, after, shown⟩ | ⟨same, shown⟩
  · left
    intro placeholder
    refine ⟨Token.fill placeholder before, Token.fill placeholder after, fun n notElement => ?_⟩
    have whole : (Printer.standard placeholder).render (C.plug n) =
        Token.fill placeholder before ++ (Printer.standard placeholder).renderNode n ++
          Token.fill placeholder after := by
      rw [Printer.renderNode, Printer.render_standard, Printer.render_standard,
        ← Token.fill_append, ← Token.fill_append]
      exact congrArg _ (shown n notElement)
    refine ⟨whole, fun noRenderer => ?_⟩
    rw [whole, Printer.renderNode, Printer.render_eq]
    simp only [Printer.standard, Registry.pieces_of_find?_eq_none noRenderer]
    simp [Printer.piecesText, Printer.pieceText, Printer.placeholder]
  · right
    intro placeholder
    refine ⟨Token.fill placeholder same, fun n notElement => ?_⟩
    rw [Printer.render_standard]
    exact congrArg _ (shown n notElement)

/-- A name and a node without a renderer as the value of an element, behind a key and an empty slot
of a list. -/
theorem Value.Context.render_plug_element :
    let element : Node.Frame := ⟨.arrayElem, .zero, 0, [("key", .string "k")], "value", []⟩
    let array : Node.Frame := ⟨.array, .zero, 0, [("0", .list [none])], "1", [("2", .null)]⟩
    let C : Value.Context := .node (.child array (.node (.child element (.node .here))))
    (Node.name "Foo" .full).kind ≠ .arrayElem ∧ (Node.ofKind .var).kind ≠ .arrayElem ∧
      Registry.standard.find? (Node.ofKind .var).kind = none ∧
      ∃ before after : String,
        (Printer.standard "?").render (C.plug (.name "Foo" .full)) = before ++ "\\Foo" ++ after ∧
        (Printer.standard "?").render (C.plug (.ofKind .var)) = before ++ "?" ++ after := by
  intro element array C
  refine ⟨by decide, by decide, rfl, ?_⟩
  rcases C.render_plug with shown | same
  · obtain ⟨before, after, shown⟩ := shown "?"
    have name : (Printer.standard "?").renderNode (.name "Foo" .full) = "\\Foo" := by
      decide +kernel
    refine ⟨before, after, ?_, (shown (.ofKind .var) (by decide)).2 rfl⟩
    rw [(shown (.name "Foo" .full) (by decide)).1, name]
  · obtain ⟨same, shown⟩ := same "?"
    have alike := (shown (.name "Foo" .full) (by decide)).trans
      (shown (.ofKind .var) (by decide)).symm
    exact absurd alike (by decide +kernel)

end ShortForm
