import ShortForm.Proofs.Json.Injective
import ShortForm.Proofs.Tree.RoundTrip

/-!
# Trees are written apart

Two trees are written alike only if writing keeps the same of both (`text_injective`), however deep
they are and whatever doubles they hold, also where the text would not be read as the tree it was
written for.

The numbers of a written tree are whole, or finite doubles, so the text tells the JSON value. The
JSON value tells what is kept of the tree. Names of children need not be distinct for that: their
members stand in the text one by one, and are compared so.
-/

namespace ShortForm

/-! ## Scalars -/

/-- Neither an object nor an array. -/
def Json.isScalar : Json → Bool
  | array _ | object _ => false
  | null | bool _ | number _ | string _ => true

namespace Value

variable {a b : Value}

theorem isScalar_toJson (v : Value) : v.toJson.isScalar = v.isScalar := by
  cases v with
  | node n => cases n; rfl
  | float x =>
    rw [toJson]
    split <;> rfl
  | _ => rfl

theorem isScalar_eq (same : a.toJson = b.toJson) : a.isScalar = b.isScalar := by
  rw [← isScalar_toJson, same, isScalar_toJson]

/-- Nodes and lists have different JSON values. -/
theorem toJson_list_ne_node (slots : List (Option Node)) (n : Node) :
    (list slots).toJson ≠ (node n).toJson := by
  cases n
  nofun

theorem namesDistinct_of_isScalar (scalar : a.isScalar) : a.NamesDistinct := by
  cases a with
  | node _ | list _ => cases scalar
  | _ => trivial

/-- The JSON value of a scalar tells what writing keeps of it. -/
theorem kept_of_isScalar (scalar : a.isScalar) (same : a.toJson = b.toJson) : a.kept = b.kept := by
  have scalar' : b.isScalar := isScalar_eq same ▸ scalar
  have recognised := ofJson?_toJson a (namesDistinct_of_isScalar scalar)
  rw [same, ofJson?_toJson b (namesDistinct_of_isScalar scalar')] at recognised
  exact (Option.some.inj recognised).symm

end Value

/-! ## Trees -/

mutual

/-- The JSON value of a node tells what writing keeps of it. -/
theorem Node.kept_of_toJson : (n m : Node) → n.toJson = m.toJson → n.kept = m.kept
  | ⟨kind, flags, line, children⟩, ⟨kind', flags', line', children'⟩, same => by
    simp only [Node.toJson, Json.ofWord, Json.object.injEq, List.cons.injEq, Prod.mk.injEq,
      Json.string.injEq, Json.number.injEq, Number.int.injEq, Int.ofNat_inj, true_and,
      and_true] at same
    obtain ⟨kinds, flagBits, lines, members⟩ := same
    obtain rfl : kind = kind' := Kind.tag_injective kinds
    obtain rfl : flags = flags' := congrArg Flags.mk (UInt32.toNat_inj.mp flagBits)
    obtain rfl : line = line' := UInt32.toNat_inj.mp lines
    rw [Node.kept, Node.kept, childrenKept_of_toJson children children' members]

/-- The JSON value of a value tells what writing keeps of it. -/
theorem Value.kept_of_toJson : (a b : Value) → a.toJson = b.toJson → a.kept = b.kept
  | .node n, b, same => by
    cases b with
    | node m => exact congrArg Value.node (Node.kept_of_toJson n m same)
    | list slots => exact absurd same.symm (Value.toJson_list_ne_node slots n)
    | _ => exact absurd (Value.isScalar_eq same) (by simp [Value.isScalar])
  | .list slots, b, same => by
    cases b with
    | node m => exact absurd same (Value.toJson_list_ne_node slots m)
    | list slots' =>
      exact congrArg Value.list (slotsKept_of_toJson slots slots' (Json.array.inj same))
    | _ => exact absurd (Value.isScalar_eq same) (by simp [Value.isScalar])
  | .null, _, same => Value.kept_of_isScalar rfl same
  | .bool _, _, same => Value.kept_of_isScalar rfl same
  | .int _, _, same => Value.kept_of_isScalar rfl same
  | .float _, _, same => Value.kept_of_isScalar rfl same
  | .string _, _, same => Value.kept_of_isScalar rfl same

theorem childrenKept_of_toJson : (children children' : List (String × Value)) →
    childrenToJson children = childrenToJson children' →
    childrenKept children = childrenKept children'
  | [], [], _ => rfl
  | [], _ :: _, same => by simp [childrenToJson] at same
  | _ :: _, [], same => by simp [childrenToJson] at same
  | (name, value) :: rest, (name', value') :: rest', same => by
    simp only [childrenToJson, List.cons.injEq, Prod.mk.injEq] at same
    obtain ⟨⟨rfl, values⟩, later⟩ := same
    rw [childrenKept, childrenKept, Value.kept_of_toJson value value' values,
      childrenKept_of_toJson rest rest' later]

theorem slotsKept_of_toJson : (slots slots' : List (Option Node)) →
    slotsToJson slots = slotsToJson slots' → slotsKept slots = slotsKept slots'
  | [], [], _ => rfl
  | [], none :: _, same => by simp [slotsToJson] at same
  | [], some _ :: _, same => by simp [slotsToJson] at same
  | none :: _, [], same => by simp [slotsToJson] at same
  | some _ :: _, [], same => by simp [slotsToJson] at same
  | none :: rest, none :: rest', same => by
    rw [slotsKept, slotsKept, slotsKept_of_toJson rest rest' (List.cons.inj same).2]
  | some n :: rest, some m :: rest', same => by
    obtain ⟨nodes, later⟩ := List.cons.inj same
    rw [slotsKept, slotsKept, Node.kept_of_toJson n m nodes, slotsKept_of_toJson rest rest' later]
  | none :: _, some m :: _, same => by
    exact absurd (List.cons.inj same).1 (by cases m; nofun)
  | some n :: _, none :: _, same => by
    exact absurd (List.cons.inj same).1 (by cases n; nofun)

end

mutual

/-- What writing does not keep of a node is not in its JSON value. -/
theorem Node.toJson_kept : (n : Node) → n.kept.toJson = n.toJson
  | ⟨kind, flags, line, children⟩ => by
    rw [Node.kept, Node.toJson, Node.toJson, childrenToJson_kept children]

/-- What writing does not keep of a value is not in its JSON value. -/
theorem Value.toJson_kept : (v : Value) → v.kept.toJson = v.toJson
  | .null | .bool _ | .int _ | .string _ => rfl
  | .float x => by
    rw [Value.kept]
    split
    · rfl
    · rename_i infinite
      rw [Value.toJson, Value.toJson, if_neg infinite]
  | .node n => Node.toJson_kept n
  | .list slots => congrArg Json.array (slotsToJson_kept slots)

theorem childrenToJson_kept : (children : List (String × Value)) →
    childrenToJson (childrenKept children) = childrenToJson children
  | [] => rfl
  | (name, value) :: rest => by
    rw [childrenKept, childrenToJson, childrenToJson, Value.toJson_kept value,
      childrenToJson_kept rest]

theorem slotsToJson_kept : (slots : List (Option Node)) →
    slotsToJson (slotsKept slots) = slotsToJson slots
  | [] => rfl
  | none :: rest => by
    rw [slotsKept, slotsToJson, slotsToJson, slotsToJson_kept rest]
  | some n :: rest => by
    rw [slotsKept, slotsToJson, slotsToJson, Node.toJson_kept n, slotsToJson_kept rest]

end

/-! ## Texts -/

namespace Value

variable {a b : Value}

/-- The text of a value tells its JSON value. -/
theorem toJson_of_text (same : a.text = b.text) : a.toJson = b.toJson := by
  have finite : ∀ v : Value, v.toJson.EachNumber Number.IsFinite := fun v =>
    v.eachNumber_toJson (fun _ _ _ => trivial) fun _ _ finite => finite
  exact Json.write_injective (finite a) (finite b) (String.ofList_injective same)

/-- **Two values are written alike exactly if writing keeps the same of both.** -/
theorem text_eq_iff : a.text = b.text ↔ a.kept = b.kept := by
  constructor
  · intro same
    exact kept_of_toJson a b (toJson_of_text same)
  · intro same
    rw [text, ← toJson_kept a, same, toJson_kept b, text]

end Value

/-- **A text is the text of one value only**, of any depth and with any doubles: two values are
written alike exactly if they are the same tree but for doubles that are not finite, each of which
stands for null. In particular whole numbers and doubles, lists and nodes, and strings and whatever
else are never written alike. -/
theorem text_injective :
    (∀ a b : Value, a.text = b.text ↔ a.kept = b.kept) ∧
      (∀ n x, (Value.int n).text ≠ (Value.float x).text) ∧
      (∀ slots n, (Value.list slots).text ≠ (Value.node n).text) ∧
      ∀ (s : String) (v : Value), (Value.string s).text = v.text ↔ v = .string s := by
  refine ⟨fun a b => Value.text_eq_iff, fun n x same => ?_, fun slots n same => ?_, fun s v => ?_⟩
  · have kept := Value.text_eq_iff.mp same
    simp only [Value.kept] at kept
    split at kept <;> cases kept
  · exact Value.toJson_list_ne_node slots n (Value.toJson_of_text same)
  · constructor
    · intro same
      have kept := Value.text_eq_iff.mp same
      cases v with
      | string t => exact kept.symm
      | float x =>
        simp only [Value.kept] at kept
        split at kept <;> cases kept
      | _ => cases kept
    · rintro rfl
      rfl

end ShortForm
