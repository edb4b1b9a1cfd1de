import ShortForm.Proofs.Json.Spelled
import ShortForm.Proofs.Tree.Streaming

/-!
# Texts that hold a tree

A text holds a value exactly when it spells a JSON value that is one, with brackets nested no deeper
than the limit (`Value.ofText_eq_ok_iff`). So what is to be known of the texts of a tree is divided
in two: which JSON values are the tree, and how these are spelled.
-/

namespace ShortForm

open Reader

open Json

/-- **A text holds a value exactly when it spells a JSON value that is one**, with brackets nested
no deeper than the limit. -/
theorem Value.ofText_eq_ok_iff {text : String} {v : Value} :
    Value.ofText text = .ok v ↔
      ∃ j, j.SpelledIn text ∧ j.nesting ≤ maxDepth ∧ Value.ofJson? j = some v := by
  rw [Value.ofText_eq_ok]
  constructor
  · rintro ⟨j, rest, reads, recognised, blank⟩
    obtain ⟨_, chars, gap, t, rfl, blanks, here⟩ := read_takes maxDepth reads
    have spelled : j.SpelledIn text :=
      .mk blanks here (List.all_eq_true.mp blank) (by rw [chars, List.append_assoc])
    refine ⟨j, spelled, Nat.le_of_not_lt fun deep => ?_, recognised⟩
    obtain ⟨_, _, run⟩ := spelled.read
    rw [run, within_of_lt deep] at reads
    cases reads
  · rintro ⟨j, spelled, fits, recognised⟩
    obtain ⟨rest, blank, run⟩ := spelled.read
    refine ⟨j, rest, ?_, recognised, List.all_eq_true.mpr blank⟩
    rw [run, within_of_le fits]
    rfl

/-- A text that holds a value that is a node holds that node. -/
theorem Node.ofText_of_value {text : String} {n : Node} (ok : Value.ofText text = .ok (.node n)) :
    Node.ofText text = .ok n := by
  have accord := Node.noteRead_upto text.toList (Nat.le_refl _)
  obtain ⟨j, rest, whole, recognised, blank⟩ := Value.ofText_eq_ok.mp ok
  rw [whole] at accord
  have isNode := Value.ofJson?_eq_node.mp recognised
  cases streamed : Node.noteRead.run text.toList with
  | error fault =>
    rw [streamed] at accord
    rw [accord.1] at isNode
    cases isNode
  | ok taken =>
    rw [streamed] at accord
    obtain ⟨⟨m, noted⟩, rest'⟩ := taken
    obtain ⟨same, rfl⟩ := accord
    obtain rfl : n = m := Option.some.inj (isNode.symm.trans same)
    exact Node.ofText_eq_ok.mpr ⟨noted, rest', streamed, blank⟩

end ShortForm
