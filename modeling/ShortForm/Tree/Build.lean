import ShortForm.Tree

/-!
# Building trees

A node is built from its kind by setting flags, line and children one after the other. The kinds
that have a text of their own have a builder each.
-/

namespace ShortForm.Node

/-- A node without children, on line 0 and with no flag set. -/
def ofKind (kind : Kind) : Node := ⟨kind, .zero, 0, []⟩

/-- The node with other flags. -/
def withFlags (n : Node) (flags : Flags) : Node := { n with flags }

/-- The node on another line. -/
def withLine (n : Node) (line : UInt32) : Node := { n with line }

/-- The node with a value put under a name: in place if the node has such a child, else last. -/
def withChild (n : Node) (name : String) (value : Value) : Node :=
  { n with children := Named.put n.children name value }

/-- A name with its qualification. -/
def name (text : String) (qualification : Qualification) : Node :=
  (ofKind .name).withFlags qualification.flags |>.withChild "name" (.string text)

/-- A constant. -/
def constant (name : Node) : Node :=
  (ofKind .const).withChild "name" (.node name)

/-- A constant of a class. -/
def classConst (owner : Node) (constant : String) : Node :=
  (ofKind .classConst).withChild "class" (.node owner) |>.withChild "const" (.string constant)

/-- What stands in a node for one slot of an array: an empty slot is null. -/
def ofSlot : Option Node → Value
  | some n => .node n
  | none => .null

/-- An array whose slots stand under their positions, counted from 0. -/
def array (form : ArrayForm) (slots : List (Option Node)) : Node :=
  slots.zipIdx.foldl (fun n (slot, i) => n.withChild (toString i) (ofSlot slot))
    ((ofKind .array).withFlags form.flags)

/-- An element of an array. An element without a key has a null in its place. -/
def arrayElem (value : Value) (key : Option Value) : Node :=
  (ofKind .arrayElem).withChild "value" value |>.withChild "key" (key.getD .null)

end ShortForm.Node
