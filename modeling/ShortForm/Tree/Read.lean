import ShortForm.Json.Expect
import ShortForm.Tree.OfJson

/-!
# Reading trees

How trees and their parts are read from JSON texts. A value is read whole before it is asked what
it is, so all that can be said of a value which is no tree is that it has no such shape. A node
that is asked for is recognised while it is read: the fault is the first in the order of the text,
and says what stood where. Members that are no fields of a node are passed over.
-/

namespace ShortForm

open Reader Json

namespace Kind

/-- Reads a kind by its tag. -/
def read : Reader Kind := do
  let tag ← readString
  pure (ofTag tag)

end Kind

namespace Flags

/-- Reads flags as a whole number. -/
def read : Reader Flags := do
  let bits ← readWord
  pure ⟨bits⟩

end Flags

/-- Reads a value with this much room for nested brackets. -/
def Value.readWithin (room : Nat) : Reader Value := do
  let j ← Json.read room
  match ofJson? j with
  | some v => pure v
  | none => fail .noShape

/-- Reads a value. -/
def Value.read : Reader Value := readWithin maxDepth

namespace Node

/-- The room for nested brackets in a child of a node: the node takes one bracket, and the object
that holds its children another. -/
def childRoom : Nat := maxDepth - 2

/-- Reads one child and puts it under its name. -/
def readChild (children : Named Value) (name : String) : Reader (Named Value) := do
  colon
  let v ← Value.readWithin childRoom
  pure (children.put name v)

/-- Reads the children of a node. -/
def readChildren : Reader (Named Value) := do
  blanks
  if (← peek) = some '\x7b' then
    next
    objectRest (refuseClosing '\x7d') stringRest readChild []
  else wrongType .object

/-- Reads a field of a node. -/
def readField (fields : Fields) : Field → Reader Fields
  | .kind => do
    let kind ← Kind.read
    pure { fields with kind := some kind }
  | .flags => do
    let flags ← readWord
    pure { fields with flags := some flags }
  | .line => do
    let line ← readWord
    pure { fields with line := some line }
  | .children => do
    let children ← readChildren
    pure { fields with children := some children }

/-- Reads a member of a node from behind its name on. A field that is there already is found before
its value is looked at. -/
def readMember (fields : Fields) (name : String) : Reader Fields :=
  match Field.ofName? name with
  | none => do
    colon
    pass
    pure fields
  | some field =>
    if fields.has field then fail (.duplicateField field.name)
    else do
      colon
      readField fields field

/-- Reads the rest of a node that is written as an object. -/
def readMembers : Reader Node := do
  let fields ← objectRest (refuseClosing '\x7d') stringRest readMember {}
  match fields.node? with
  | some n => pure n
  | none => fail (.missingField Field.kind.name)

/-- Reads the rest of a node that is written as an array. -/
def readItems : Reader Node := do
  if ← hasItem then
    let kind ← Kind.read
    let flags ← nextItem Flags.read .zero
    let line ← nextItem readWord 0
    let children ← nextItem readChildren []
    listEnd
    pure { kind, flags, line, children }
  else fail .emptyNode

/-- Reads a node. -/
def read : Reader Node := do
  blanks
  let c ← peek
  if c = some '[' then
    next
    readItems
  else if c = some '\x7b' then
    next
    readMembers
  else wrongType .node

end Node

/-- Why a text is no tree, or no kind. -/
inductive TreeError where
  /-- The text could not be read as JSON of a tree. -/
  | malformed (fault : Fault)
  /-- The tag is not listed. -/
  | unknownKind (tag : String)
  deriving DecidableEq

/-- The wording of an error. -/
def TreeError.message : TreeError → String
  | malformed fault => "malformed node JSON: " ++ fault.message
  | unknownKind tag => "unknown node kind `" ++ tag ++ "`"

/-- The node that a JSON text holds. -/
def Node.ofText (text : String) : Except TreeError Node :=
  (Node.read.readAll text).mapError .malformed

/-- The value that a JSON text holds. -/
def Value.ofText (text : String) : Except TreeError Value :=
  (Value.read.readAll text).mapError .malformed

/-- A value is read whole, then recognised, and then there is to be nothing behind it. -/
theorem Value.ofText_eq (text : String) :
    Value.ofText text =
      match (Json.read maxDepth).run text.toList with
      | .error fault => .error (.malformed fault)
      | .ok (j, rest) =>
        match ofJson? j with
        | none => .error (.malformed .noShape)
        | some v => if rest.all isBlank then .ok v else .error (.malformed .trailingText) := by
  rw [ofText, readAll, Value.read, readWithin, run_bind]
  cases (Json.read maxDepth).run text.toList with
  | error fault => rfl
  | ok taken =>
    obtain ⟨j, rest⟩ := taken
    simp only
    cases ofJson? j with
    | none => rfl
    | some v =>
      simp only [run_pure]
      split <;> rfl

theorem Value.ofText_eq_ok {text : String} {v : Value} :
    Value.ofText text = .ok v ↔
      ∃ j rest, (Json.read maxDepth).run text.toList = .ok (j, rest) ∧ ofJson? j = some v ∧
        rest.all isBlank := by
  rw [ofText_eq]
  constructor
  · intro ok
    split at ok
    · cases ok
    split at ok
    · cases ok
    split at ok
    · cases ok
      exact ⟨_, _, ‹_›, ‹_›, ‹_›⟩
    · cases ok
  · rintro ⟨j, rest, whole, recognised, blank⟩
    simp only [whole, recognised, blank, if_true]

/-- The listed kind with this tag. -/
def Kind.parse (tag : String) : Except TreeError Kind :=
  match Kind.ofTag? tag with
  | some kind => .ok kind
  | none => .error (.unknownKind tag)

end ShortForm
