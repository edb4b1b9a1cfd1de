import Mathlib.Data.List.Forall2
import Mathlib.Logic.Relation
import ShortForm.Proofs.Printer.Context

/-!
# Changes that are not shown

A short form leaves much of a tree out: lines, most flags, the names of the slots of an array, the
children that the renderer of a kind does not look up, and all of a node that has no renderer but
that it is there. `Node.HiddenChange` lists the changes of one node that keep to this, and
`Value.ChangesWithin` lets one of them happen at any node of a tree. Whatever such changes are made
one after the other, the short form stays as it was (`Printer.render_eq_of_hiddenChanges`).

What a node shows of a child goes by less than the child. `Value.ShownAlike` gathers all of it: the
short form, the slots that the child stands for in an array, whether it is a node, whether it is
null, and the text that it is. Two nodes that find children alike under the names that are looked
up are alike themselves (`Node.shownAlike_of_lookups`), and every change here is a case of that.
-/

namespace ShortForm

open Piece

/-! ## Changes -/

/-- The names under which a node of this kind looks its children up. An array does not: it shows all
of its children by their places. -/
def Kind.lookups : Kind → List String
  | .name | .const => ["name"]
  | .classConst => ["class", "const"]
  | .arrayElem => ["value", "key"]
  | _ => []

/-- The second node is the first with something changed that is not shown. -/
inductive Node.HiddenChange : Node → Node → Prop where
  | line (n : Node) (line : UInt32) : HiddenChange n { n with line }
  | flags {n : Node} (notName : n.kind ≠ .name) (notArray : n.kind ≠ .array) (flags : Flags) :
      HiddenChange n { n with flags }
  /-- The flags of a name that is not qualified. -/
  | nameFlags {n : Node} {flags : Flags} (kind : n.kind = .name) (old : n.flags.bits ∉ [1, 2])
      (new : flags.bits ∉ [1, 2]) : HiddenChange n { n with flags }
  /-- The flags of an array in brackets. -/
  | arrayFlags {n : Node} {flags : Flags} (kind : n.kind = .array) (old : n.flags.bits ≠ 1)
      (new : flags.bits ≠ 1) : HiddenChange n { n with flags }
  /-- The names of the children of an array, in their order. -/
  | names {n : Node} {children : List (String × Value)} (kind : n.kind = .array)
      (values : children.map (·.2) = n.children.map (·.2)) : HiddenChange n { n with children }
  /-- Children that are not looked up: some more of them, some less, or other ones. -/
  | children {n : Node} {children : List (String × Value)} (notArray : n.kind ≠ .array)
      (found : ∀ name ∈ n.kind.lookups, Named.get? children name = n.child? name) :
      HiddenChange n { n with children }
  /-- One kind without a renderer for another. Elements of arrays are no such kind. -/
  | kind {n : Node} {kind : Kind} (old : n.kind ∉ .arrayElem :: Registry.standardKinds)
      (new : kind ∉ .arrayElem :: Registry.standardKinds) : HiddenChange n { n with kind }

mutual

/-- A hidden change at one node of a node. -/
inductive Node.ChangesWithin : Node → Node → Prop where
  | here {n m : Node} (change : n.HiddenChange m) : Node.ChangesWithin n m
  | child (frame : Node.Frame) {v w : Value} (deeper : Value.ChangesWithin v w) :
      Node.ChangesWithin (frame.fill v) (frame.fill w)

/-- A hidden change at one node of a value. -/
inductive Value.ChangesWithin : Value → Value → Prop where
  | node {n m : Node} (deeper : Node.ChangesWithin n m) : Value.ChangesWithin (.node n) (.node m)
  | slot (before after : List (Option Node)) {n m : Node} (deeper : Node.ChangesWithin n m) :
      Value.ChangesWithin (.list (before ++ some n :: after)) (.list (before ++ some m :: after))

end

/-! ## What is shown of a child -/

/-- The tokens of each of the slots that a value stands for in an array. -/
def Value.slotTokens (v : Value) : List (List Token) :=
  v.slots.map fun slot => tokens (ofArraySlot slot)

/-- The tokens of each of the slots of an array. -/
def Node.slotTokens (n : Node) : List (List Token) :=
  n.children.flatMap fun entry => entry.2.slotTokens

theorem Node.map_tokens_slots (n : Node) : (n.slots.map ofArraySlot).map tokens = n.slotTokens := by
  rw [List.map_map, slots, List.map_flatMap]
  rfl

/-- Nothing that a node shows of a child tells the two values apart. -/
structure Value.ShownAlike (v w : Value) : Prop where
  whole : Registry.standard.skeleton v = Registry.standard.skeleton w
  slots : v.slotTokens = w.slotTokens
  isNode : v.isNode = w.isNode
  isNull : v.isNull = w.isNull
  string : v.string? = w.string?

/-- The two nodes are shown alike, by themselves and in a slot of an array. -/
structure Node.ShownAlike (n m : Node) : Prop where
  whole : Registry.standard.skeleton (.node n) = Registry.standard.skeleton (.node m)
  slot : tokens (ofArraySlot (.node n)) = tokens (ofArraySlot (.node m))

theorem Value.ShownAlike.refl (v : Value) : v.ShownAlike v := ⟨rfl, rfl, rfl, rfl, rfl⟩

/-- Nodes that are alike are alike as values. -/
theorem Node.ShownAlike.value {n m : Node} (alike : n.ShownAlike m) :
    (Value.node n).ShownAlike (.node m) :=
  ⟨alike.whole, congrArg (fun slot => [slot]) alike.slot, rfl, rfl, rfl⟩

/-- Slots between brackets show no more than each of them does. -/
theorem Piece.tokens_bracketed_congr (brackets : String × String)
    {slots others : List (List Piece)} (same : slots.map tokens = others.map tokens) :
    tokens (bracketed brackets slots) = tokens (bracketed brackets others) := by
  have joined (lists : List (List Piece)) :
      tokens ([text ","].intercalate lists) = [Token.text ","].intercalate (lists.map tokens) := by
    cases lists with
    | nil => rfl
    | cons first lists =>
      rw [List.map_cons, intercalate_cons, intercalate_cons, tokens_append, List.flatMap_map]
      exact congrArg _ List.flatMap_assoc
  simp only [bracketed, tokens_cons, tokens_append, joined, same]

/-- Lists whose slots are shown alike, one by one, are alike. -/
theorem Value.ShownAlike.list {slots others : List (Option Node)}
    (alike : List.Forall₂ (Option.Rel Node.ShownAlike) slots others) :
    (Value.list slots).ShownAlike (.list others) := by
  have item {slot other : Option Node} (same : Option.Rel Node.ShownAlike slot other) :
      tokens [ofListSlot slot] = tokens [ofListSlot other] ∧
        tokens (ofArraySlot (Node.ofSlot slot)) = tokens (ofArraySlot (Node.ofSlot other)) := by
    cases same with
    | none => exact ⟨rfl, rfl⟩
    | some same =>
      exact ⟨by simpa [tokens, ofListSlot, Registry.tokens] using same.whole, same.slot⟩
  have items : (slots.map fun slot => tokens [ofListSlot slot]) =
        (others.map fun slot => tokens [ofListSlot slot]) ∧
      (slots.map fun slot => tokens (ofArraySlot (Node.ofSlot slot))) =
        others.map fun slot => tokens (ofArraySlot (Node.ofSlot slot)) := by
    induction alike with
    | nil => exact ⟨rfl, rfl⟩
    | cons same _ ih => simp only [List.map_cons, item same, ih, and_self]
  refine ⟨?_, ?_, rfl, rfl, rfl⟩
  · rw [Registry.skeleton_eq, Registry.skeleton_eq]
    refine tokens_bracketed_congr _ ?_
    rw [List.map_map, List.map_map]
    exact items.1
  · rw [Value.slotTokens, Value.slotTokens, Value.slots, Value.slots, List.map_map, List.map_map]
    exact items.2

/-- A slot of a list may be a node that is shown alike. -/
theorem Node.ShownAlike.list {n m : Node} (alike : n.ShownAlike m)
    (before after : List (Option Node)) :
    (Value.list (before ++ some n :: after)).ShownAlike (.list (before ++ some m :: after)) := by
  have same (slots : List (Option Node)) :
      List.Forall₂ (Option.Rel Node.ShownAlike) slots slots :=
    List.forall₂_same.mpr fun slot _ => by
      cases slot with
      | none => exact .none
      | some k => exact .some ⟨rfl, rfl⟩
  exact .list (List.rel_append (same before) (.cons (.some alike) (same after)))

/-- Nodes whose children are shown alike one by one have the same slots to show. -/
theorem Node.slotTokens_congr {n m : Node}
    (alike : List.Forall₂ (fun entry other => entry.2.ShownAlike other.2) n.children m.children) :
    n.slotTokens = m.slotTokens := by
  unfold slotTokens
  generalize n.children = children, m.children = others at alike ⊢
  induction alike with
  | nil => rfl
  | cons same _ ih => rw [List.flatMap_cons, List.flatMap_cons, same.slots, ih]

/-! ## What is looked up -/

/-- A lookup in either node finds nothing, or what is found is alike. -/
def Node.FindsAlike (n m : Node) (name : String) : Prop :=
  Option.Rel Value.ShownAlike (n.child? name) (m.child? name)

namespace Node.FindsAlike

variable {n m : Node} {name : String}

theorem of_eq (same : n.child? name = m.child? name) : n.FindsAlike m name := by
  rw [FindsAlike, same]
  cases m.child? name with
  | none => exact .none
  | some v => exact .some (.refl v)

theorem string (alike : n.FindsAlike m name) : n.childString? name = m.childString? name := by
  unfold FindsAlike at alike
  unfold childString?
  generalize n.child? name = found, m.child? name = other at alike ⊢
  cases alike with
  | none => rfl
  | some same => exact same.string

theorem value (alike : n.FindsAlike m name) :
    Registry.standard.tokens (ofValue? (n.child? name)) =
      Registry.standard.tokens (ofValue? (m.child? name)) := by
  unfold FindsAlike at alike
  generalize n.child? name = found, m.child? name = other at alike ⊢
  cases alike with
  | none => rfl
  | some same => exact same.whole

theorem node (alike : n.FindsAlike m name) :
    Registry.standard.tokens (ofValue? ((n.childNode? name).map .node)) =
      Registry.standard.tokens (ofValue? ((m.childNode? name).map .node)) := by
  unfold FindsAlike at alike
  unfold childNode?
  generalize n.child? name = found, m.child? name = other at alike ⊢
  cases alike with
  | none => rfl
  | @some v w same =>
    have isNode := same.isNode
    cases v <;> cases w <;> first | rfl | exact same.whole | cases isNode

theorem key (alike : n.FindsAlike m name) :
    tokens (ofKey? (n.child? name)) = tokens (ofKey? (m.child? name)) := by
  unfold FindsAlike at alike
  generalize n.child? name = found, m.child? name = other at alike ⊢
  cases alike with
  | none => rfl
  | @some v w same =>
    by_cases null : v = .null
    · have isNull := same.isNull
      subst null
      cases w <;> first | rfl | cases isNull
    · have otherNull : w ≠ .null := by
        rintro rfl
        have isNull := same.isNull
        cases v <;> first | exact null rfl | cases isNull
      have shown : Registry.standard.tokens (.value v) = Registry.standard.tokens (.value w) :=
        same.whole
      rw [ofKey?_some null, ofKey?_some otherNull, tokens_cons, tokens_cons _ [text "=>"], shown]

end Node.FindsAlike

/-- **Nodes that find children alike are alike**, if they are of the same kind, their flags mean the
same where they are looked at, and the slots of arrays are alike. -/
theorem Node.shownAlike_of_lookups {n m : Node} (kind : n.kind = m.kind)
    (mark : n.kind = .name →
      (Qualification.ofFlags n.flags).mark = (Qualification.ofFlags m.flags).mark)
    (brackets : n.kind = .array →
      (ArrayForm.ofFlags n.flags).brackets = (ArrayForm.ofFlags m.flags).brackets)
    (found : ∀ name ∈ n.kind.lookups, n.FindsAlike m name)
    (slots : n.kind = .array → n.slotTokens = m.slotTokens) : n.ShownAlike m := by
  have whole : Registry.standard.skeleton (.node n) = Registry.standard.skeleton (.node m) := by
    rw [Registry.skeleton_eq, Registry.skeleton_eq]
    rcases Registry.standard_cases n.kind with isKind | isKind | isKind | isKind | noRenderer
    · rw [isKind] at found kind
      rw [Registry.pieces_of_name isKind, Registry.pieces_of_name kind.symm, mark isKind,
        (found "name" (by decide)).string]
    · rw [isKind] at found kind
      rw [Registry.pieces_of_const isKind, Registry.pieces_of_const kind.symm,
        List.flatMap_singleton, List.flatMap_singleton]
      exact (found "name" (by decide)).node
    · rw [isKind] at found kind
      rw [Registry.pieces_of_classConst isKind, Registry.pieces_of_classConst kind.symm,
        (found "const" (by decide)).string]
      exact congrArg (· ++ _) (found "class" (by decide)).node
    · rw [Registry.pieces_of_array isKind, Registry.pieces_of_array (kind ▸ isKind),
        brackets isKind]
      refine tokens_bracketed_congr _ ?_
      rw [map_tokens_slots, map_tokens_slots, slots isKind]
    · rw [Registry.pieces_of_find?_eq_none noRenderer,
        Registry.pieces_of_find?_eq_none (kind ▸ noRenderer)]
  refine ⟨whole, ?_⟩
  by_cases element : n.kind = .arrayElem
  · rw [ofArraySlot_element element, ofArraySlot_element (kind ▸ element)]
    rw [element] at found
    have value := (found "value" (by decide)).value
    rw [ofElement, ofElement, tokens_append, tokens_append, (found "key" (by decide)).key]
    exact congrArg _ (by simpa [tokens] using value)
  · rw [ofArraySlot_node element, ofArraySlot_node (kind ▸ element)]
    simpa [tokens, Registry.tokens] using whole

/-! ## Changes are not shown -/

theorem Qualification.ofFlags_of_not_mem {flags : Flags} (other : flags.bits ∉ [1, 2]) :
    ofFlags flags = .bare := by
  obtain ⟨bits⟩ := flags
  simp only [List.mem_cons, List.not_mem_nil, or_false, not_or] at other
  simp [ofFlags, Qualification.flags, other]

theorem ArrayForm.brackets_ofFlags_of_ne {flags : Flags} (other : flags.bits ≠ 1) :
    (ofFlags flags).brackets = ("[", "]") := by
  obtain ⟨bits⟩ := flags
  have notList : (⟨bits⟩ : Flags) ≠ ArrayForm.list.flags := by
    rintro ⟨⟩
    exact other rfl
  rw [ofFlags, if_neg notList]
  split <;> rfl

/-- Kinds without a renderer are shown alike, but for elements of arrays. -/
theorem Node.shownAlike_of_unserved {n m : Node}
    (old : n.kind ∉ .arrayElem :: Registry.standardKinds)
    (new : m.kind ∉ .arrayElem :: Registry.standardKinds) : n.ShownAlike m := by
  have tokens_hole {k : Node} (unserved : k.kind ∉ .arrayElem :: Registry.standardKinds) :
      Registry.standard.skeleton (.node k) = [.hole] ∧
        tokens (ofArraySlot (.node k)) = [.hole] := by
    simp only [Registry.standardKinds, List.mem_cons, List.not_mem_nil, or_false, not_or]
      at unserved
    obtain ⟨notElement, notName, notConst, notClassConst, notArray⟩ := unserved
    have noRenderer := (Registry.standard_cases k.kind).resolve_left notName
      |>.resolve_left notConst |>.resolve_left notClassConst |>.resolve_left notArray
    have whole : Registry.standard.skeleton (.node k) = [.hole] := by
      rw [Registry.skeleton_eq, Registry.pieces_of_find?_eq_none noRenderer]
      rfl
    refine ⟨whole, ?_⟩
    rw [ofArraySlot_node notElement]
    simpa [tokens, Registry.tokens] using whole
  obtain ⟨oldWhole, oldSlot⟩ := tokens_hole old
  obtain ⟨newWhole, newSlot⟩ := tokens_hole new
  exact ⟨oldWhole.trans newWhole.symm, oldSlot.trans newSlot.symm⟩

/-- A change that keeps the children keeps what is found, and the slots. -/
theorem Node.shownAlike_of_flags {n m : Node} (kind : n.kind = m.kind)
    (children : n.children = m.children)
    (mark : n.kind = .name →
      (Qualification.ofFlags n.flags).mark = (Qualification.ofFlags m.flags).mark)
    (brackets : n.kind = .array →
      (ArrayForm.ofFlags n.flags).brackets = (ArrayForm.ofFlags m.flags).brackets) :
    n.ShownAlike m := by
  refine shownAlike_of_lookups kind mark brackets (fun name _ => .of_eq ?_) fun _ => ?_
  · rw [child?, child?, children]
  · rw [slotTokens, slotTokens, children]

/-- A hidden change is not shown. -/
theorem Node.HiddenChange.shownAlike {n m : Node} (change : n.HiddenChange m) : n.ShownAlike m := by
  cases change with
  | line line => exact shownAlike_of_flags rfl rfl (fun _ => rfl) fun _ => rfl
  | flags notName notArray flags =>
    exact shownAlike_of_flags rfl rfl (absurd · notName) (absurd · notArray)
  | nameFlags kind old new =>
    refine shownAlike_of_flags rfl rfl (fun _ => ?_) fun array => ?_
    · simp only [Qualification.ofFlags_of_not_mem old, Qualification.ofFlags_of_not_mem new]
    · rw [kind] at array
      cases array
  | arrayFlags kind old new =>
    refine shownAlike_of_flags rfl rfl (fun name => ?_) fun _ => ?_
    · rw [kind] at name
      cases name
    · rw [ArrayForm.brackets_ofFlags_of_ne old, ArrayForm.brackets_ofFlags_of_ne new]
  | @names children kind values =>
    refine shownAlike_of_lookups rfl (fun _ => rfl) (fun _ => rfl) (fun name never => ?_)
      fun _ => ?_
    · rw [kind] at never
      cases never
    · have bySlots (entries : List (String × Value)) :
          entries.flatMap (fun entry => entry.2.slotTokens) =
            (entries.map (·.2)).flatMap Value.slotTokens := by
        rw [List.flatMap_map]
      rw [slotTokens, slotTokens, bySlots, bySlots, values]
  | children notArray found =>
    exact shownAlike_of_lookups rfl (fun _ => rfl) (fun _ => rfl)
      (fun name mem => .of_eq (found name mem).symm) (absurd · notArray)
  | kind old new => exact shownAlike_of_unserved old new

/-- Alike values as the same child leave nodes alike. -/
theorem Node.Frame.fill_shownAlike (frame : Node.Frame) {v w : Value} (alike : v.ShownAlike w) :
    (frame.fill v).ShownAlike (frame.fill w) := by
  refine Node.shownAlike_of_lookups rfl (fun _ => rfl) (fun _ => rfl) (fun name _ => ?_) fun _ => ?_
  · rcases frame.child?_fill name with ⟨_, here⟩ | ⟨found, other⟩
    · rw [Node.FindsAlike, here, here]
      exact .some alike
    · exact .of_eq ((other v).trans (other w).symm)
  · simp only [Node.slotTokens, fill, List.flatMap_append, List.flatMap_cons, alike.slots]

mutual

/-- A hidden change anywhere in a node is not shown. -/
theorem Node.ChangesWithin.shownAlike {n m : Node} : n.ChangesWithin m → n.ShownAlike m
  | .here change => change.shownAlike
  | .child frame deeper => frame.fill_shownAlike deeper.shownAlike

/-- A hidden change anywhere in a value is not shown. -/
theorem Value.ChangesWithin.shownAlike {v w : Value} : v.ChangesWithin w → v.ShownAlike w
  | .node deeper => deeper.shownAlike.value
  | .slot before after deeper => deeper.shownAlike.list before after

end

/-- **Hidden changes are not shown**, however many are made and wherever in the tree. -/
theorem Printer.render_eq_of_hiddenChanges {v w : Value}
    (changes : Relation.ReflTransGen Value.ChangesWithin v w) (placeholder : String) :
    (standard placeholder).render w = (standard placeholder).render v := by
  induction changes with
  | refl => rfl
  | tail _ change ih =>
    rw [← ih, render_standard, render_standard, change.shownAlike.whole]

/-- Three changes of an array in a list: the flags of the name that is the value of an element, a
child of that name which is not its text, and the name of the slot. -/
theorem Printer.render_eq_of_hiddenChanges_element :
    let tree (slot : String) (flags : Flags) (children : List (String × Value)) : Value :=
      .list [none, some ⟨.array, ⟨1⟩, 0, [(slot, .node ⟨.arrayElem, .zero, 0,
        [("value", .node ⟨.name, flags, 0, children⟩), ("key", .node (.ofKind .var))]⟩)]⟩]
    let old := tree "0" ⟨0⟩ [("name", .string "Foo")]
    let new := tree "first" ⟨3⟩ [("kind", .null), ("name", .string "Foo")]
    Relation.ReflTransGen Value.ChangesWithin old new ∧
      (standard "?").render new = (standard "?").render old ∧
      (standard "?").render old = "[null,list(?=>Foo)]" := by
  intro tree old new
  let array : Node.Frame := ⟨.array, ⟨1⟩, 0, [], "0", []⟩
  let element : Node.Frame :=
    ⟨.arrayElem, .zero, 0, [], "value", [("key", .node (.ofKind .var))]⟩
  have atName {n m : Node} (change : n.HiddenChange m) :
      Value.ChangesWithin (.list [none, some (array.fill (.node (element.fill (.node n))))])
        (.list [none, some (array.fill (.node (element.fill (.node m))))]) :=
    .slot [none] [] (.child array (.node (.child element (.node (.here change)))))
  have flags : old.ChangesWithin (tree "0" ⟨3⟩ [("name", .string "Foo")]) :=
    atName (.nameFlags rfl (by decide) (by decide))
  have child : (tree "0" ⟨3⟩ [("name", .string "Foo")]).ChangesWithin
      (tree "0" ⟨3⟩ [("kind", .null), ("name", .string "Foo")]) := by
    refine atName (.children (by decide) fun name mem => ?_)
    obtain rfl := List.mem_singleton.mp mem
    rfl
  have slot : (tree "0" ⟨3⟩ [("kind", .null), ("name", .string "Foo")]).ChangesWithin new :=
    .slot [none] [] (.here (.names rfl rfl))
  have changes := ((Relation.ReflTransGen.single flags).tail child).tail slot
  exact ⟨changes, render_eq_of_hiddenChanges changes "?", by decide +kernel⟩

end ShortForm
