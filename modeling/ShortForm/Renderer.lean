import ShortForm.Tree.Inside

/-!
# Renderers

A renderer says what the text of a node is made of: fixed texts, values inside the node, and holes
where something that should be there is not. It does not put the text together. So it can neither
look at the text of a value nor at what a hole is filled with, and it cannot ask for the text of
anything that does not lie inside the node.

There is a renderer for names, constants, class constants and arrays. What is missing from a node,
or is not of the shape that its renderer expects, leaves a hole in its own place only.
-/

namespace ShortForm

/-- A part of the text of a node. -/
inductive Part (n : Node) where
  /-- This text. -/
  | text (s : String)
  /-- Something that cannot be shown. -/
  | hole
  /-- The text of a value inside the node. -/
  | value (v : Value) (inside : v.Inside n)

namespace Part

variable {n : Node}

/-- A part of the text of a node inside another is a part of the text of that one. -/
def outward {m : Node} (inside : (Value.node m).Inside n) : Part m → Part n
  | text s => text s
  | hole => hole
  | value v deeper => value v (.trans deeper inside)

/-- The child under a name. -/
def child (n : Node) (name : String) : Part n :=
  match found : n.child? name with
  | some v => value v (.of_child? found)
  | none => hole

/-- The child under a name, which has to be a node. -/
def childNode (n : Node) (name : String) : Part n :=
  match found : n.child? name with
  | some (.node m) => value (.node m) (.of_child? found)
  | _ => hole

/-- The child under a name, which has to be a text; it is shown as it is. -/
def childString (n : Node) (name : String) : Part n :=
  match n.childString? name with
  | some s => text s
  | none => hole

end Part

/-- What the text of a node is made of. -/
abbrev Renderer := (n : Node) → List (Part n)

namespace Renderer

/-- A name behind its qualification. -/
def name : Renderer := fun n =>
  let qualification :=
    match Qualification.ofFlags n.flags with
    | .full => "\\"
    | .relative => "namespace\\"
    | .bare => ""
  [.text qualification, .childString n "name"]

/-- A constant is shown as its name. -/
def constant : Renderer := fun n => [.childNode n "name"]

/-- A class constant: the class, two colons, the name of the constant. -/
def classConst : Renderer := fun n =>
  [.childNode n "class", .text "::", .childString n "const"]

/-- An element of an array, behind its key if it has one. Only an array shows its elements so; it
is no renderer for elements that stand elsewhere. -/
def arrayElem : Renderer := fun n =>
  match found : n.child? "key" with
  | none | some .null => [.child n "value"]
  | some key => [.value key (.of_child? found), .text "=>", .child n "value"]

/-- A node in a slot of an array. -/
def slotNode {n : Node} (m : Node) (inside : (Value.node m).Inside n) : List (Part n) :=
  if m.kind = .arrayElem then (arrayElem m).map (.outward inside)
  else [.value (.node m) inside]

/-- A slot of a list inside an array. -/
def listSlot {n : Node} {name : String} {slots : List (Option Node)}
    (mem : (name, .list slots) ∈ n.children) :
    (slot : Option Node) → slot ∈ slots → List (Part n)
  | none, _ => []
  | some m, slotMem => slotNode m (.slot mem slotMem)

/-- The slots that a child of an array stands for: a list stands for its own slots, and any other
child for one slot, which is empty where the child is null. -/
def childSlots {n : Node} {name : String} :
    (v : Value) → (name, v) ∈ n.children → List (List (Part n))
  | .null, _ => [[]]
  | .list slots, mem => slots.attach.map fun slot => listSlot mem slot.1 slot.2
  | .node m, mem => [slotNode m (.child mem)]
  | .bool b, mem => [[.value (.bool b) (.child mem)]]
  | .int i, mem => [[.value (.int i) (.child mem)]]
  | .float x, mem => [[.value (.float x) (.child mem)]]
  | .string s, mem => [[.value (.string s) (.child mem)]]

/-- The slots of an array, in order. -/
def arraySlots (n : Node) : List (List (Part n)) :=
  n.children.attach.flatMap fun entry => childSlots entry.1.2 entry.2

/-- An array: its slots with commas between them, in brackets, or in parentheses after `list`. The
two bracketed forms are not told apart. -/
def array : Renderer := fun n =>
  let slots := [.text ","].intercalate (arraySlots n)
  match ArrayForm.ofFlags n.flags with
  | .short | .long => .text "[" :: (slots ++ [.text "]"])
  | .list => .text "list(" :: (slots ++ [.text ")"])

/-- The renderer of a kind, for the kinds that have one. -/
def ofKind? : Kind → Option Renderer
  | .name => some name
  | .const => some constant
  | .classConst => some classConst
  | .array => some array
  | _ => none

end Renderer

end ShortForm
