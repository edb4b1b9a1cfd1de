import ShortForm.Proofs.Named
import ShortForm.Tree.Build

/-!
# What builders build

A builder sets children one after the other under names of its own. The names are distinct, so each
child goes behind the ones before it: an array has its slots under their positions, and an element
its value in front of its key. No slot takes the place of another, because numbers with the same
digits are the same (`toString_injective`).
-/

namespace ShortForm.Node

/-- Different numbers have different names. -/
theorem toString_injective {i k : Nat} (same : toString i = toString k) : i = k := by
  have digits : Nat.toDigits 10 i = Nat.toDigits 10 k := by
    have := congrArg String.toList same
    rwa [Nat.toString_eq_repr, Nat.toString_eq_repr, Nat.toList_repr, Nat.toList_repr] at this
  rw [← @Nat.ofDigitChars_ten_toDigits i, digits, Nat.ofDigitChars_ten_toDigits]

/-- Children that are set one after the other are put in so. -/
theorem foldl_withChild (n : Node) (entries : Named Value) :
    entries.foldl (fun m (name, value) => m.withChild name value) n =
      { n with children := Named.putAll n.children entries } := by
  induction entries generalizing n with
  | nil =>
    cases n
    rfl
  | cons entry entries ih => exact ih (n.withChild entry.1 entry.2)

/-- The slots under their positions. -/
def positioned (slots : List (Option Node)) : Named Value :=
  slots.zipIdx.map fun (slot, i) => (toString i, ofSlot slot)

theorem nodup_names_positioned (slots : List (Option Node)) :
    (Named.names (positioned slots)).Nodup := by
  have names : Named.names (positioned slots) = (slots.zipIdx.map Prod.snd).map toString := by
    rw [positioned, Named.names, List.map_map, List.map_map]
    rfl
  rw [names, List.zipIdx_map_snd]
  exact List.Nodup.map (fun _ _ => toString_injective) List.nodup_range'

/-- The slots of an array stand under their positions. -/
theorem array_eq (form : ArrayForm) (slots : List (Option Node)) :
    array form slots = ⟨.array, form.flags, 0, positioned slots⟩ := by
  have steps : array form slots =
      (positioned slots).foldl (fun n (name, value) => n.withChild name value)
        ((ofKind .array).withFlags form.flags) := by rw [array, positioned, List.foldl_map]
  rw [steps, foldl_withChild]
  exact congrArg _ (Named.putAll_of_nodup (nodup_names_positioned slots))

theorem length_children_array (form : ArrayForm) (slots : List (Option Node)) :
    (array form slots).children.length = slots.length := by
  rw [array_eq, positioned, List.length_map, List.length_zipIdx]

theorem getElem?_children_array (form : ArrayForm) (slots : List (Option Node)) (i : Nat) :
    (array form slots).children[i]? =
      slots[i]?.map fun slot => (toString i, ofSlot slot) := by
  rw [array_eq, positioned, List.getElem?_map, List.getElem?_zipIdx, Option.map_map, Nat.zero_add]
  rfl

/-- Each slot of an array is found under its position, and nothing under other names. -/
theorem child?_array_eq_some_iff {form : ArrayForm} {slots : List (Option Node)} {name : String}
    {v : Value} :
    (array form slots).child? name = some v ↔
      ∃ (i : Nat) (slot : _), slots[i]? = some slot ∧ name = toString i ∧ v = ofSlot slot := by
  have distinct : (Named.names (array form slots).children).Nodup := by
    rw [array_eq]
    exact nodup_names_positioned slots
  have found : (array form slots).child? name = some v ↔
      (name, v) ∈ (array form slots).children :=
    ⟨Named.mem_of_get?, Named.get?_of_mem distinct⟩
  simp only [found, List.mem_iff_getElem?, getElem?_children_array, Option.map_eq_some_iff,
    Prod.mk.injEq, eq_comm (b := name), eq_comm (b := v)]

/-- An element has its value and its key, which is null if there is none. -/
theorem arrayElem_eq (value : Value) (key : Option Value) :
    arrayElem value key =
      ⟨.arrayElem, .zero, 0, [("value", value), ("key", key.getD .null)]⟩ := by
  simp [arrayElem, ofKind, withChild, Named.put]

end ShortForm.Node
