import ShortForm.Tree

/-!
# Trees alike

Two trees are alike when they cannot be told apart by looking children up: kinds, flags, lines and
slots agree in place, children agree name by name in any order, and doubles agree as numbers. So a
tree with a NaN in it is not even like itself, and both zeros are alike. An integer is never like a
double.
-/

namespace ShortForm

mutual

/-- Two nodes are alike. -/
def Node.alike : Node → Node → Bool
  | ⟨kind, flags, line, children⟩, other =>
    kind == other.kind && flags == other.flags && line == other.line &&
      children.length == other.children.length && childrenAlike children other.children

/-- Two values are alike. -/
def Value.alike : Value → Value → Bool
  | .null, .null => true
  | .bool a, .bool b => a == b
  | .int a, .int b => a == b
  | .float a, .float b => a.sameNumber b
  | .string a, .string b => a == b
  | .node a, .node b => a.alike b
  | .list a, .list b => slotsAlike a b
  | _, _ => false

/-- Every entry has one under the same name among the others that is like it. -/
def childrenAlike : List (String × Value) → List (String × Value) → Bool
  | [], _ => true
  | (name, value) :: rest, others =>
    (match Named.get? others name with
      | some other => value.alike other
      | none => false) && childrenAlike rest others

/-- Two lists of slots are alike slot by slot. -/
def slotsAlike : List (Option Node) → List (Option Node) → Bool
  | [], [] => true
  | none :: rest, none :: others => slotsAlike rest others
  | some a :: rest, some b :: others => a.alike b && slotsAlike rest others
  | _, _ => false

end

end ShortForm
