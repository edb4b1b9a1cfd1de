import ShortForm.Json.Write
import ShortForm.Tree

/-!
# Trees as JSON

The JSON value of a tree. A node is an object with its four fields, always all of them and always
in the same order. Among the values there is no way to write a double that is not finite: it
becomes null.
-/

namespace ShortForm

/-- The fields of a node. -/
inductive Field where
  | kind | flags | line | children
  deriving DecidableEq

/-- The name that a field is written under. -/
def Field.name : Field → String
  | kind => "kind"
  | flags => "flags"
  | line => "lineno"
  | children => "children"

/-- The field that is written under a name. -/
def Field.ofName? (name : String) : Option Field :=
  [kind, flags, line, children].find? fun field => field.name == name

mutual

/-- The JSON value of a node. -/
def Node.toJson : Node → Json
  | ⟨kind, flags, line, children⟩ =>
    .object [(Field.kind.name, .string kind.tag), (Field.flags.name, .ofWord flags.bits),
      (Field.line.name, .ofWord line), (Field.children.name, .object (childrenToJson children))]

/-- The JSON value of a value. -/
def Value.toJson : Value → Json
  | .null => .null
  | .bool b => .bool b
  | .int n => .number (.int n.toInt)
  | .float x => if x.isFinite then .number (.float x) else .null
  | .string s => .string s
  | .node n => n.toJson
  | .list slots => .array (slotsToJson slots)

/-- The members of an object that holds these children. -/
def childrenToJson : List (String × Value) → List (String × Json)
  | [] => []
  | (name, value) :: rest => (name, value.toJson) :: childrenToJson rest

/-- The items of an array that holds these slots. -/
def slotsToJson : List (Option Node) → List Json
  | [] => []
  | none :: rest => .null :: slotsToJson rest
  | some n :: rest => n.toJson :: slotsToJson rest

end

/-- The compact JSON text of a node. -/
def Node.text (n : Node) : String := n.toJson.text

/-- The compact JSON text of a value. -/
def Value.text (v : Value) : String := v.toJson.text

end ShortForm
