import Mathlib.Data.List.Nodup
import ShortForm.Kind

/-!
# Tags and order of kinds

A kind is written by its tag and read back by looking the tag up in the list. The kind `unknown` is
not listed, yet it reads back as well: its tag is the tag of no listed kind, and a tag that is not
found is read as `unknown`.

Kinds are compared by their places in the list, and `unknown` comes after the last. So different
kinds, in whatever order they come, are sorted into the one order in which the list of all kinds has
them (`Kind.sorted_eq_of_perm`).
-/

namespace ShortForm.Kind

/-- The bytes of a tag, read as the digits of one number. -/
def tagNumber (kind : Kind) : Nat :=
  kind.tag.toByteArray.data.toList.foldl (fun n b => n * 256 + b.toNat) 0

/-- Different kinds are written by different tags, the kind `unknown` included. -/
theorem tag_injective {a b : Kind} (same : a.tag = b.tag) : a = b := by
  -- Numbers are compared in place of texts because that is what is quick to check.
  have distinct : (all.map tagNumber).Nodup := by decide +kernel
  have number : a.tagNumber = b.tagNumber := by rw [tagNumber, tagNumber, same]
  exact List.inj_on_of_nodup_map distinct (mem_all a) (mem_all b) number

theorem tag_of_ofTag? {tag : String} {kind : Kind} (found : ofTag? tag = some kind) :
    kind.tag = tag := by
  simpa using List.find?_some found

/-- A kind reads back from the tag that it is written by. -/
theorem ofTag_tag (kind : Kind) : ofTag kind.tag = kind := by
  cases found : ofTag? kind.tag with
  | some other =>
    rw [ofTag, found, Option.getD_some, tag_injective (tag_of_ofTag? found)]
  | none =>
    rw [ofTag, found, Option.getD_none]
    have unlisted : kind ∉ listed := by
      intro mem
      have := List.find?_eq_none.mp found kind mem
      simp at this
    exact ((mem_listed_or_eq_unknown kind).resolve_left unlisted).symm

/-! ## Order -/

/-- The places of all kinds, counted from the first. -/
theorem map_rank_all : all.map rank = List.range all.length := by
  decide +kernel

theorem pairwise_rank_all : all.Pairwise fun a b => a.rank < b.rank := by
  rw [← List.pairwise_map, map_rank_all]
  exact List.pairwise_lt_range

theorem rank_injective {a b : Kind} (same : a.rank = b.rank) : a = b := by
  have distinct : (all.map rank).Nodup := map_rank_all ▸ List.nodup_range
  exact List.inj_on_of_nodup_map distinct (mem_all a) (mem_all b) same

theorem isLE_compare_iff {a b : Kind} : (compare a b).isLE = true ↔ a.rank ≤ b.rank :=
  Nat.isLE_compare

theorem pairwise_sorted (kinds : List Kind) :
    (sorted kinds).Pairwise fun a b => a.rank ≤ b.rank := by
  have inOrder : (sorted kinds).Pairwise fun a b => (compare a b).isLE = true := by
    refine List.pairwise_mergeSort (fun a b c => ?_) (fun a b => ?_) kinds
    · simpa only [isLE_compare_iff] using Nat.le_trans
    · simpa only [Bool.or_eq_true, isLE_compare_iff] using Nat.le_total a.rank b.rank
  exact inOrder.imp isLE_compare_iff.mp

/-- Sorting undoes any rearrangement of kinds that stand in the order of the list. -/
theorem sorted_eq_of_perm {kinds shown : List Kind} (inOrder : shown.Sublist all)
    (same : kinds.Perm shown) : sorted kinds = shown := by
  have shownInOrder : shown.Pairwise fun a b => a.rank ≤ b.rank :=
    (pairwise_rank_all.sublist inOrder).imp Nat.le_of_lt
  refine List.Perm.eq_of_pairwise (fun a b _ _ le ge => ?_) (pairwise_sorted kinds) shownInOrder
    ((List.mergeSort_perm ..).trans same)
  exact rank_injective (Nat.le_antisymm le ge)

end ShortForm.Kind
