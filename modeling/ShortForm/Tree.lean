import ShortForm.Kind
import ShortForm.Flags
import ShortForm.Binary64
import ShortForm.Named

/-!
# Trees

A tree is plain data: a node of some kind with its flags, its line and its children under names.
Which names are present goes by the kind, but nothing here relies on it. Whoever looks for a child
meets the case that it is absent, or that it is not what was looked for.

A child is a scalar, a node, or a list of slots each of which may be empty. The names of a node's
children are distinct in every tree that the builders and the readers make; the type does not ask
for it.
-/

namespace ShortForm

mutual

/-- One construct of the language. -/
structure Node where
  kind : Kind
  flags : Flags
  /-- The line that the construct begins on. It is kept for whoever holds the tree. -/
  line : UInt32
  /-- The children under their names, in the order they were put in. -/
  children : List (String × Value)

/-- What can stand as a child of a node. -/
inductive Value where
  | null
  | bool (b : Bool)
  | int (n : Int64)
  | float (x : Binary64)
  | string (s : String)
  | node (n : Node)
  /-- A sequence of slots, some of which may be empty. -/
  | list (slots : List (Option Node))

end

namespace Value

/-- The null value. -/
def isNull : Value → Bool
  | null => true
  | _ => false

/-- A node, whatever its kind. -/
def isNode : Value → Bool
  | node _ => true
  | _ => false

/-- Neither a node nor a list. -/
def isScalar : Value → Bool
  | node _ | list _ => false
  | _ => true

/-- The node that a value is. -/
def node? : Value → Option Node
  | node n => some n
  | _ => none

/-- The text that a value is. -/
def string? : Value → Option String
  | string s => some s
  | _ => none

end Value

namespace Node

/-- The child under a name. -/
def child? (n : Node) (name : String) : Option Value :=
  Named.get? n.children name

/-- The child under a name, if it is a node. -/
def childNode? (n : Node) (name : String) : Option Node :=
  (n.child? name).bind Value.node?

/-- The child under a name, if it is a text. -/
def childString? (n : Node) (name : String) : Option String :=
  (n.child? name).bind Value.string?

end Node

end ShortForm
