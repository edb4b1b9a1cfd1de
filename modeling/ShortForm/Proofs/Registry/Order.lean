import ShortForm.Printer
import ShortForm.Proofs.Kind
import ShortForm.Proofs.Registry

/-!
# The order of registrations

A registry is kept in a table that goes through its entries in an order of its own, and nothing is
promised about that order. So a table of a registry is here any list of the entries that it holds
(`Registry.Holds`), and what is said of a table is said of every such list.

No order leaves a trace in what a registry shows. Entries that are registered in another order fill
the same registry (`Holds.unique`), and a listing sorts the kinds, whichever way the table went
through them (`Holds.listingOf_kinds`). What a registry answers, lists and renders is then the same
(`Registry.order_unobservable`), for any renderers, since none of them sees the registry that it is
taken from.
-/

namespace ShortForm.Registry

variable {r s : Registry} {entries table : List (Kind × Renderer)}

theorem kinds_sublist (r : Registry) : r.kinds.Sublist Kind.all :=
  List.filter_sublist

/-- The kinds of a registry stand in the order of kinds, so sorting them moves nothing. -/
theorem sorted_own_kinds (r : Registry) : Kind.sorted r.kinds = r.kinds :=
  Kind.sorted_eq_of_perm r.kinds_sublist (.refl _)

namespace Holds

/-- What a registry holds it holds in any order. -/
theorem perm (holds : r.Holds entries) (same : entries.Perm table) : r.Holds table where
  distinct := (same.map _).nodup holds.distinct
  found_iff kind renderer := (holds.found_iff kind renderer).trans same.mem_iff

/-- Sorting brings the kinds of a table into the order of kinds. -/
theorem sorted_kinds (holds : r.Holds table) : Kind.sorted (table.map (·.1)) = r.kinds :=
  Kind.sorted_eq_of_perm r.kinds_sublist holds.kinds_perm.symm

/-- The order in which a table goes through the kinds cannot be seen in a listing. -/
theorem listingOf_kinds (holds : r.Holds table) : listingOf (table.map (·.1)) = r.listing := by
  unfold listing listingOf
  rw [holds.sorted_kinds, r.sorted_own_kinds]

end Holds

/-- **The order of registrations and of requirements cannot be observed.** Two registries that are
filled with the same entries in different orders, and checked for the same kinds in different
orders, find the same renderers, have the same kinds and the same number of them, and render every
value to the same text. Through whatever orders their tables go, they go through the same kinds; and
the listing of either is the same text, with the kinds in the order of kinds, `unknown` last. -/
theorem order_unobservable {entries rearranged : List (Kind × Renderer)}
    {required requiredRearranged : List Kind} (distinct : (entries.map (·.1)).Nodup)
    (sameEntries : entries.Perm rearranged) (sameRequired : required.Perm requiredRearranged)
    (served : required ⊆ entries.map (·.1)) :
    ∃ r s : Registry,
      (empty.registerAll entries >>= fun filled => filled.require required) = .ok r ∧
      (empty.registerAll rearranged >>= fun filled => filled.require requiredRearranged) = .ok s ∧
      (∀ kind, r.find? kind = s.find? kind ∧ r.contains kind = s.contains kind) ∧
      r.size = s.size ∧
      (∀ kind, kind ∈ r.kinds ↔ kind ∈ s.kinds) ∧
      (∀ table table', r.Holds table → s.Holds table' →
        (table.map (·.1)).Perm (table'.map (·.1)) ∧
        (Kind.sorted (table.map (·.1))).Sublist (Kind.listed ++ [.unknown]) ∧
        listingOf (table.map (·.1)) = r.listing ∧ listingOf (table'.map (·.1)) = r.listing) ∧
      r.listing = s.listing ∧
      ∀ options v, Printer.render ⟨r, options⟩ v = Printer.render ⟨s, options⟩ v := by
  have distinctRearranged := (sameEntries.map (·.1)).nodup distinct
  have servedRearranged : requiredRearranged ⊆ rearranged.map (·.1) := fun kind needed =>
    (sameEntries.map (·.1)).subset (served (sameRequired.symm.subset needed))
  obtain ⟨r, made, holds⟩ := exists_holds distinct served
  obtain ⟨s, madeRearranged, holdsRearranged⟩ := exists_holds distinctRearranged servedRearranged
  obtain rfl : r = s := (holds.perm sameEntries).unique holdsRearranged
  refine ⟨r, r, made, madeRearranged, fun _ => ⟨rfl, rfl⟩, rfl, fun _ => .rfl,
    fun table table' ofTable ofTable' => ?_, rfl, fun _ _ => rfl⟩
  refine ⟨ofTable.kinds_perm.symm.trans ofTable'.kinds_perm, ?_, ofTable.listingOf_kinds,
    ofTable'.listingOf_kinds⟩
  rw [ofTable.sorted_kinds]
  exact r.kinds_sublist

/-- The kind `unknown`, registered first or second, and listed last. Unknown nodes are shown as
arrays and elements, where no array shows them, as constants. -/
theorem order_unobservable_unknown :
    let entries : List (Kind × Renderer) :=
      [(.unknown, .array), (.arrayElem, .constant), (.name, .name)]
    let rearranged : List (Kind × Renderer) :=
      [(.name, .name), (.unknown, .array), (.arrayElem, .constant)]
    let name : Node := ⟨.name, .zero, 0, [("name", .string "A")]⟩
    let element : Node := ⟨.arrayElem, .zero, 0, [("name", .node name), ("value", .int 1)]⟩
    let whole : Node := ⟨.unknown, .zero, 0, [("0", .node element), ("1", .list [none])]⟩
    (entries.map (·.1)).Nodup ∧ entries.Perm rearranged ∧
      [Kind.name, .unknown, .name].Perm [.name, .name, .unknown] ∧
      [Kind.name, .unknown, .name] ⊆ entries.map (·.1) ∧
      ∃ r s : Registry,
        (empty.registerAll entries >>= fun filled =>
          filled.require [.name, .unknown, .name]) = .ok r ∧
        (empty.registerAll rearranged >>= fun filled =>
          filled.require [.name, .name, .unknown]) = .ok s ∧
        r.Holds entries ∧ s.Holds rearranged ∧
        listingOf [.unknown, .arrayElem, .name] =
          "RendererRegistry \x7b kinds: [Name, ArrayElem, Unknown] \x7d" ∧
        Printer.render ⟨r, {}⟩ (.list [some element, some whole]) = "[A,[1,]]" := by
  intro entries rearranged name element whole
  have distinct : (entries.map (·.1)).Nodup := by decide
  have sameEntries : entries.Perm rearranged := by
    show ([_, _] ++ [_]).Perm ([_] ++ [_, _])
    exact List.perm_append_comm
  have sameRequired : [Kind.name, .unknown, .name].Perm [.name, .name, .unknown] := by decide
  have served : [Kind.name, .unknown, .name] ⊆ entries.map (·.1) := by decide
  obtain ⟨r, s, made, madeRearranged, _, _, _, tables, sameListing, sameText⟩ :=
    order_unobservable distinct sameEntries sameRequired served
  -- The registry that was filled last, written out, so that its listing can be evaluated.
  let known : Registry := ⟨fun kind =>
    if kind = .arrayElem then some .constant
    else if kind = .unknown then some .array
    else if kind = .name then some .name
    else none⟩
  obtain rfl : s = known := Except.ok.inj (madeRearranged.symm.trans rfl)
  obtain ⟨filled, filledFirst, holds⟩ := exists_holds distinct served
  obtain rfl : r = filled := Except.ok.inj (made.symm.trans filledFirst)
  have servedRearranged : [Kind.name, .name, .unknown] ⊆ rearranged.map (·.1) := by decide
  obtain ⟨filled, filledLast, holdsRearranged⟩ :=
    exists_holds ((sameEntries.map (·.1)).nodup distinct) servedRearranged
  obtain rfl : known = filled := Except.ok.inj (madeRearranged.symm.trans filledLast)
  refine ⟨distinct, sameEntries, sameRequired, served, r, known, made, madeRearranged, holds,
    holdsRearranged, ?_, ?_⟩
  · calc listingOf (entries.map (·.1)) = r.listing := (tables _ _ holds holdsRearranged).2.2.1
      _ = known.listing := sameListing
      _ = _ := by
        unfold listing listingOf
        rw [known.sorted_own_kinds]
        decide +kernel
  · rw [sameText]
    decide +kernel

end ShortForm.Registry
