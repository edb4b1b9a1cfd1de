import ShortForm.Tree.Json

/-!
# Trees from JSON

Which JSON values are trees. A node is an object with its fields, or an array of them in their
order. Of the fields only the kind is needed; flags and line are zero and children none where they
are left out. An object may have other members too, which mean nothing, but no field twice.

An array is a node when it can be one, and otherwise a list if each of its items is a node or null.
The two do not overlap: the first item of a node is a string.
-/

namespace ShortForm

/-- The fields of a node that are known so far. -/
structure Fields where
  kind : Option Kind := none
  flags : Option UInt32 := none
  line : Option UInt32 := none
  children : Option (List (String × Value)) := none

namespace Fields

/-- The field is known already. -/
def has (fields : Fields) : Field → Bool
  | .kind => fields.kind.isSome
  | .flags => fields.flags.isSome
  | .line => fields.line.isSome
  | .children => fields.children.isSome

/-- The node with these fields. Without a kind there is none. -/
def node? (fields : Fields) : Option Node :=
  fields.kind.map fun kind =>
    ⟨kind, ⟨fields.flags.getD 0⟩, fields.line.getD 0, fields.children.getD []⟩

end Fields

/-- The kind that a JSON value is the tag of. -/
def Json.kind? : Json → Option Kind
  | .string tag => some (.ofTag tag)
  | _ => none

/-- The scalar of a number: a whole number that does not fit is a double. -/
def Value.ofNumber : Number → Value
  | .int n => if n < 0x8000000000000000 then .int (.ofInt n) else .float (.ofInt n)
  | .float x => .float x

mutual

/-- The value that a JSON value is. -/
def Value.ofJson? : Json → Option Value
  | .null => some .null
  | .bool b => some (.bool b)
  | .number n => some (.ofNumber n)
  | .string s => some (.string s)
  | .object members => ((fieldsOf? {} members).bind Fields.node?).map .node
  | .array items =>
    match nodeOfItems? items with
    | some n => some (.node n)
    | none => (slotsOf? items).map .list

/-- The node that a JSON value is. -/
def Node.ofJson? : Json → Option Node
  | .object members => (fieldsOf? {} members).bind Fields.node?
  | .array items => nodeOfItems? items
  | _ => none

/-- The node that has these fields in their order. -/
def nodeOfItems? : List Json → Option Node
  | [kind] => do
    return ⟨← kind.kind?, .zero, 0, []⟩
  | [kind, flags] => do
    return ⟨← kind.kind?, ⟨← flags.word?⟩, 0, []⟩
  | [kind, flags, line] => do
    return ⟨← kind.kind?, ⟨← flags.word?⟩, ← line.word?, []⟩
  | [kind, flags, line, children] => do
    return ⟨← kind.kind?, ⟨← flags.word?⟩, ← line.word?, ← childrenOf? children⟩
  | _ => none

/-- Adds the fields among the members of an object to those that are known. -/
def fieldsOf? (fields : Fields) : List (String × Json) → Option Fields
  | [] => some fields
  | (name, value) :: rest =>
    match Field.ofName? name with
    | none => fieldsOf? fields rest
    | some field =>
      if fields.has field then none
      else
        match field with
        | .kind => do fieldsOf? { fields with kind := some (← value.kind?) } rest
        | .flags => do fieldsOf? { fields with flags := some (← value.word?) } rest
        | .line => do fieldsOf? { fields with line := some (← value.word?) } rest
        | .children => do fieldsOf? { fields with children := some (← childrenOf? value) } rest

/-- The children that an object holds. -/
def childrenOf? : Json → Option (List (String × Value))
  | .object members => childrenOfMembers? [] members
  | _ => none

/-- Puts the values of members under their names one after the other. -/
def childrenOfMembers? (children : List (String × Value)) :
    List (String × Json) → Option (List (String × Value))
  | [] => some children
  | (name, value) :: rest => do
    childrenOfMembers? (Named.put children name (← Value.ofJson? value)) rest

/-- The slots that the items of an array are. -/
def slotsOf? : List Json → Option (List (Option Node))
  | [] => some []
  | .null :: rest => do return none :: (← slotsOf? rest)
  | item :: rest => do return some (← Node.ofJson? item) :: (← slotsOf? rest)

end

end ShortForm
