import Mathlib.Data.List.Induction
import Mathlib.Data.List.Nodup
import ShortForm.Registry

/-!
# What registrations come to

Renderers are registered one after the other, and whether the required kinds have one is checked
once at the end. A kind that comes twice is refused at the first place where any kind comes again.
Of the required kinds, the first without a renderer is named. Where nothing is refused, the registry
holds what was registered and nothing else (`Registry.outcome_of_registrations`).

The invariant is `Registry.Holds`, of a registry and the entries that were put into it. A refusal
needs no invariant of its own: up to the refused entry all went well. And since no two registries
hold the same entries (`Holds.unique`), the standard registry, which is given as a table, is the one
that registrations fill (`Registry.standard_of_registrations`).
-/

namespace ShortForm.Registry

variable {r s : Registry} {kind : Kind} {kinds required : List Kind}
  {entries more : List (Kind × Renderer)}

/-! ## First offenders -/

/-- The kind stands at the first place where a kind comes again. -/
def FirstRepeated (kinds : List Kind) (kind : Kind) : Prop :=
  ∃ before after, kinds = before ++ kind :: after ∧ before.Nodup ∧ kind ∈ before

/-- The kind stands at the first place where a kind is required that is not registered. -/
def FirstMissing (registered required : List Kind) (kind : Kind) : Prop :=
  ∃ before after, required = before ++ kind :: after ∧ before ⊆ registered ∧ kind ∉ registered

theorem FirstRepeated.not_nodup (first : FirstRepeated kinds kind) : ¬ kinds.Nodup := by
  obtain ⟨before, after, rfl, _, again⟩ := first
  intro distinct
  exact List.disjoint_of_nodup_append distinct again List.mem_cons_self

/-- Where kinds are repeated, one of them is the first. -/
theorem exists_firstRepeated (repeated : ¬ kinds.Nodup) : ∃ kind, FirstRepeated kinds kind := by
  induction kinds using List.reverseRecOn with
  | nil => exact absurd List.nodup_nil repeated
  | append_singleton kinds last ih =>
    by_cases distinct : kinds.Nodup
    · -- Nothing comes again before the last place, so it is there that something does.
      have again : last ∈ kinds := by
        by_contra new
        exact repeated (List.nodup_append_comm.mp (List.nodup_cons.mpr ⟨new, distinct⟩))
      exact ⟨last, kinds, [], rfl, distinct, again⟩
    · obtain ⟨kind, before, after, rfl, first⟩ := ih distinct
      exact ⟨kind, before, after ++ [last], by rw [List.append_assoc, List.cons_append], first⟩

/-! ## Registering -/

/-- The registry holds these entries and no others, at most one for each kind. It does not matter in
which order they are given. -/
structure Holds (r : Registry) (entries : List (Kind × Renderer)) : Prop where
  distinct : (entries.map (·.1)).Nodup
  found_iff : ∀ kind renderer, r.find? kind = some renderer ↔ (kind, renderer) ∈ entries

theorem holds_empty : empty.Holds [] :=
  ⟨List.nodup_nil, by simp [empty]⟩

theorem registerAll_cons (r : Registry) (kind : Kind) (renderer : Renderer)
    (more : List (Kind × Renderer)) :
    r.registerAll ((kind, renderer) :: more) =
      r.register kind renderer >>= fun s => s.registerAll more :=
  List.foldlM_cons

theorem registerAll_append (r : Registry) (entries more : List (Kind × Renderer)) :
    r.registerAll (entries ++ more) = r.registerAll entries >>= fun s => s.registerAll more :=
  List.foldlM_append

namespace Holds

theorem contains_iff (holds : r.Holds entries) :
    r.contains kind = true ↔ kind ∈ entries.map (·.1) := by
  simp only [contains, Option.isSome_iff_exists, holds.found_iff, List.mem_map, Prod.exists,
    exists_and_right, exists_eq_right]

theorem lacks_iff (holds : r.Holds entries) :
    (!r.contains kind) = true ↔ kind ∉ entries.map (·.1) := by
  rw [Bool.not_eq_true', ← Bool.not_eq_true, holds.contains_iff]

/-- A kind that has no renderer gets one. -/
theorem register (holds : r.Holds entries) (new : kind ∉ entries.map (·.1)) (renderer : Renderer) :
    ∃ s, r.register kind renderer = .ok s ∧ s.Holds (entries ++ [(kind, renderer)]) := by
  have free : r.contains kind ≠ true := fun old => new (holds.contains_iff.mp old)
  refine ⟨_, if_neg free, ?_, fun k f => ?_⟩
  · rw [List.map_append]
    exact List.nodup_append_comm.mp (List.nodup_cons.mpr ⟨new, holds.distinct⟩)
  · by_cases same : k = kind
    · subst same
      have absent : (k, f) ∉ entries := fun mem => new (List.mem_map_of_mem mem)
      simp [absent, eq_comm]
    · simp [same, holds.found_iff]

/-- A kind that has a renderer is refused. -/
theorem register_again (holds : r.Holds entries) (again : kind ∈ entries.map (·.1))
    (renderer : Renderer) : r.register kind renderer = .error (.duplicate kind) :=
  if_pos (holds.contains_iff.mpr again)

/-- Entries for different kinds are all taken, in whatever registry none of them has a place yet. -/
theorem registerAll (holds : r.Holds entries) (distinct : ((entries ++ more).map (·.1)).Nodup) :
    ∃ s, r.registerAll more = .ok s ∧ s.Holds (entries ++ more) := by
  induction more generalizing r entries with
  | nil => exact ⟨r, rfl, by rwa [List.append_nil]⟩
  | cons entry more ih =>
    obtain ⟨kind, renderer⟩ := entry
    have new : kind ∉ entries.map (·.1) := by
      intro old
      rw [List.map_append] at distinct
      exact List.disjoint_of_nodup_append distinct old List.mem_cons_self
    obtain ⟨s, registered, holds⟩ := holds.register new renderer
    rw [List.append_cons] at distinct ⊢
    obtain ⟨t, registeredAll, holds⟩ := ih holds distinct
    refine ⟨t, ?_, holds⟩
    rw [registerAll_cons, registered]
    exact registeredAll

end Holds

theorem holds_registerAll (distinct : (entries.map (·.1)).Nodup) :
    ∃ r, empty.registerAll entries = .ok r ∧ r.Holds entries :=
  holds_empty.registerAll distinct

/-- The entry at the first place where a kind comes again is refused, whatever comes after it. -/
theorem registerAll_of_firstRepeated (first : FirstRepeated (entries.map (·.1)) kind) :
    empty.registerAll entries = .error (.duplicate kind) := by
  obtain ⟨before, after, split, distinct, again⟩ := first
  obtain ⟨front, rest, rfl, rfl, ends⟩ := List.map_eq_append_iff.mp split
  obtain ⟨⟨_, renderer⟩, behind, rfl, rfl, _⟩ := List.map_eq_cons_iff.mp ends
  obtain ⟨s, registered, holds⟩ := holds_registerAll distinct
  rw [registerAll_append, registered]
  show s.registerAll ((_, renderer) :: behind) = _
  rw [registerAll_cons, holds.register_again again]
  rfl

/-- Registrations are refused for the first kind that comes again, and for nothing else. -/
theorem registerAll_eq_error_iff {e : RegistryError} :
    empty.registerAll entries = .error e ↔
      ∃ kind, FirstRepeated (entries.map (·.1)) kind ∧ e = .duplicate kind := by
  constructor
  · intro refused
    have repeated : ¬ (entries.map (·.1)).Nodup := by
      intro distinct
      obtain ⟨r, registered, _⟩ := holds_registerAll distinct
      cases registered.symm.trans refused
    obtain ⟨kind, first⟩ := exists_firstRepeated repeated
    cases (registerAll_of_firstRepeated first).symm.trans refused
    exact ⟨kind, first, rfl⟩
  · rintro ⟨kind, first, rfl⟩
    exact registerAll_of_firstRepeated first

/-- Registrations are refused just where some kind comes twice. -/
theorem exists_registerAll_eq_error_iff :
    (∃ e, empty.registerAll entries = .error e) ↔ ¬ (entries.map (·.1)).Nodup := by
  constructor
  · rintro ⟨e, refused⟩
    obtain ⟨_, first, _⟩ := registerAll_eq_error_iff.mp refused
    exact first.not_nodup
  · intro repeated
    obtain ⟨kind, first⟩ := exists_firstRepeated repeated
    exact ⟨_, registerAll_of_firstRepeated first⟩

/-! ## Requiring -/

namespace Holds

/-- The search for a kind without a renderer finds the first that is missing. -/
theorem find?_lacking_eq_some_iff (holds : r.Holds entries) :
    required.find? (fun kind => !r.contains kind) = some kind ↔
      FirstMissing (entries.map (·.1)) required kind := by
  rw [List.find?_eq_some_iff_append]
  simp only [Bool.not_not, holds.contains_iff, holds.lacks_iff]
  constructor
  · rintro ⟨missing, before, after, split, served⟩
    exact ⟨before, after, split, served, missing⟩
  · rintro ⟨before, after, split, served, missing⟩
    exact ⟨missing, before, after, split, fun _ mem => served mem⟩

/-- A registry is refused for the first required kind that it does not hold, and for nothing
else. -/
theorem require_eq_error_iff (holds : r.Holds entries) {e : RegistryError} :
    r.require required = .error e ↔
      ∃ kind, FirstMissing (entries.map (·.1)) required kind ∧ e = .missing kind := by
  simp only [← holds.find?_lacking_eq_some_iff]
  unfold require
  split
  next kind found => simp [found, eq_comm]
  next found => simp [found]

/-- A registry that holds every required kind is handed on as it is. -/
theorem require_eq_ok (holds : r.Holds entries) (served : required ⊆ entries.map (·.1)) :
    r.require required = .ok r := by
  have found : required.find? (fun kind => !r.contains kind) = none := by
    refine List.find?_eq_none.mpr fun kind needed => ?_
    rw [holds.contains_iff.mpr (served needed)]
    decide
  rw [require, found]

/-- A registry is refused just where some required kind is not among its entries. -/
theorem exists_require_eq_error_iff (holds : r.Holds entries) :
    (∃ e, r.require required = .error e) ↔ ∃ kind ∈ required, kind ∉ entries.map (·.1) := by
  constructor
  · rintro ⟨e, refused⟩
    obtain ⟨kind, ⟨before, after, rfl, _, missing⟩, _⟩ := holds.require_eq_error_iff.mp refused
    exact ⟨kind, List.mem_append_right before List.mem_cons_self, missing⟩
  · rintro ⟨kind, needed, missing⟩
    have some : (required.find? fun kind => !r.contains kind).isSome :=
      List.find?_isSome.mpr ⟨kind, needed, holds.lacks_iff.mpr missing⟩
    obtain ⟨first, found⟩ := Option.isSome_iff_exists.mp some
    exact ⟨_, holds.require_eq_error_iff.mpr
      ⟨first, holds.find?_lacking_eq_some_iff.mp found, rfl⟩⟩

/-! ## What a registry shows of its entries -/

/-- A registry is known by the entries that it holds. -/
theorem unique (holds : r.Holds entries) (others : s.Holds entries) : r = s := by
  have same : r.find? = s.find? := by
    funext kind
    refine Option.ext fun renderer => ?_
    rw [holds.found_iff, others.found_iff]
  cases r
  cases s
  exact congrArg Registry.mk same

/-- Iterating over the kinds gives each registered kind once. -/
theorem kinds_perm (holds : r.Holds entries) : r.kinds.Perm (entries.map (·.1)) := by
  refine (List.perm_ext_iff_of_nodup (Kind.nodup_all.filter _) holds.distinct).mpr fun kind => ?_
  rw [List.mem_filter, holds.contains_iff]
  exact and_iff_right (Kind.mem_all kind)

theorem size_eq (holds : r.Holds entries) : r.size = entries.length := by
  rw [size, holds.kinds_perm.length_eq, List.length_map]

theorem isEmpty_iff (holds : r.Holds entries) : r.isEmpty = true ↔ entries = [] := by
  rw [isEmpty, holds.size_eq, beq_iff_eq, List.length_eq_zero_iff]

theorem count_kinds (holds : r.Holds entries) (kind : Kind) :
    r.kinds.count kind = if kind ∈ entries.map (·.1) then 1 else 0 := by
  rw [holds.kinds_perm.count_eq]
  split
  next mem => exact List.count_eq_one_of_mem holds.distinct mem
  next absent => exact List.count_eq_zero_of_not_mem absent

end Holds

/-- Entries of different kinds fill a registry that has all kinds required of it, if these are among
theirs. -/
theorem exists_holds (distinct : (entries.map (·.1)).Nodup)
    (served : required ⊆ entries.map (·.1)) :
    ∃ r, (empty.registerAll entries >>= fun filled => filled.require required) = .ok r ∧
      r.Holds entries := by
  obtain ⟨r, registered, holds⟩ := holds_registerAll distinct
  refine ⟨r, ?_, holds⟩
  rw [registered]
  exact holds.require_eq_ok served

/-- **A registry takes exactly the entries of different kinds, and names the first offender.**
Registrations are refused just where some kind comes twice, for the kind at the first place where
any kind comes again. If they are not, requirements are refused just where some required kind was
not registered, for the first such kind. If nothing is refused, the registry finds for a kind what
was registered for it, counts as many renderers as were registered, and goes through each kind that
was registered once and through no other. -/
theorem outcome_of_registrations (entries : List (Kind × Renderer)) (required : List Kind) :
    ((∃ e, empty.registerAll entries = .error e) ↔ ¬ (entries.map (·.1)).Nodup) ∧
    (∀ e, empty.registerAll entries = .error e ↔
      ∃ kind, FirstRepeated (entries.map (·.1)) kind ∧ e = .duplicate kind) ∧
    ((entries.map (·.1)).Nodup → ∃ filled, empty.registerAll entries = .ok filled ∧
      ((∃ e, filled.require required = .error e) ↔
        ∃ kind ∈ required, kind ∉ entries.map (·.1)) ∧
      (∀ e, filled.require required = .error e ↔
        ∃ kind, FirstMissing (entries.map (·.1)) required kind ∧ e = .missing kind) ∧
      (required ⊆ entries.map (·.1) → ∃ r, filled.require required = .ok r ∧
        (∀ kind renderer, r.find? kind = some renderer ↔ (kind, renderer) ∈ entries) ∧
        (∀ kind, r.contains kind = true ↔ ∃ renderer, r.find? kind = some renderer) ∧
        r.size = entries.length ∧
        (r.isEmpty = true ↔ entries = []) ∧
        ∀ kind, r.kinds.count kind = if kind ∈ entries.map (·.1) then 1 else 0)) := by
  refine ⟨exists_registerAll_eq_error_iff, fun e => registerAll_eq_error_iff, fun distinct => ?_⟩
  obtain ⟨filled, registered, holds⟩ := holds_registerAll distinct
  refine ⟨filled, registered, holds.exists_require_eq_error_iff,
    fun e => holds.require_eq_error_iff, fun served => ?_⟩
  exact ⟨filled, holds.require_eq_ok served, holds.found_iff,
    fun kind => Option.isSome_iff_exists, holds.size_eq, holds.isEmpty_iff, holds.count_kinds⟩

/-- Of two kinds that come again the earlier is named, of two that are missing the first required;
and a registry for an element and an unknown kind, one of them required twice. -/
theorem outcome_of_registrations_array :
    let repeated : List (Kind × Renderer) :=
      [(.name, .name), (.array, .array), (.const, .constant), (.array, .name), (.name, .array)]
    let entries : List (Kind × Renderer) := [(.unknown, .array), (.arrayElem, .constant)]
    empty.registerAll repeated = .error (.duplicate .array) ∧
      (entries.map (·.1)).Nodup ∧
      [Kind.unknown, .arrayElem, .unknown] ⊆ entries.map (·.1) ∧
      ∃ filled, empty.registerAll entries = .ok filled ∧
        filled.require [.unknown, .var, .name] = .error (.missing .var) ∧
        ∃ r, filled.require [.unknown, .arrayElem, .unknown] = .ok r ∧
          r.find? .arrayElem = some .constant ∧ r.size = 2 ∧ r.kinds.count .unknown = 1 := by
  intro repeated entries
  have refused := (outcome_of_registrations repeated []).2.1 (.duplicate .array)
  have distinct : (entries.map (·.1)).Nodup := by decide
  have served : [Kind.unknown, .arrayElem, .unknown] ⊆ entries.map (·.1) := by decide
  obtain ⟨filled, registered, _, missing, _⟩ :=
    (outcome_of_registrations entries [.unknown, .var, .name]).2.2 distinct
  obtain ⟨filled', registered', _, _, holds⟩ :=
    (outcome_of_registrations entries [.unknown, .arrayElem, .unknown]).2.2 distinct
  cases registered.symm.trans registered'
  obtain ⟨r, required, found, _, size, _, once⟩ := holds served
  refine ⟨refused.mpr ⟨.array, ⟨[.name, .array, .const], [.name], rfl, by decide, by decide⟩, rfl⟩,
    distinct, served, filled, registered,
    (missing _).mpr ⟨.var, ⟨[.unknown], [.name], rfl, by decide, by decide⟩, rfl⟩,
    r, required, (found _ _).mpr (List.mem_cons_of_mem _ List.mem_cons_self), size, ?_⟩
  rw [once, if_pos (by decide)]

/-! ## The standard registry -/

/-- The renderers that kinds have of their own, in the order of kinds. -/
def builtins : List (Kind × Renderer) :=
  Kind.listed.filterMap fun kind => (Renderer.ofKind? kind).map (kind, ·)

/-- No renderer is left out: the one kind that is not listed has none. -/
theorem mem_builtins_iff {renderer : Renderer} :
    (kind, renderer) ∈ builtins ↔ Renderer.ofKind? kind = some renderer := by
  rw [builtins, List.mem_filterMap]
  constructor
  · rintro ⟨other, _, entry⟩
    obtain ⟨_, own, same⟩ := Option.map_eq_some_iff.mp entry
    cases same
    exact own
  · intro own
    have listed : kind ∈ Kind.listed := by
      refine (Kind.mem_listed_or_eq_unknown kind).resolve_right ?_
      rintro rfl
      cases own
    exact ⟨kind, listed, by rw [own, Option.map_some]⟩

theorem holds_standard : standard.Holds builtins where
  distinct := by decide
  found_iff _ _ := mem_builtins_iff.symm

/-- **The standard registry is what registrations come to**: those of all renderers that kinds have
of their own. None of them is refused, and no kind that the registry has to serve is missing. -/
theorem standard_of_registrations :
    (empty.registerAll builtins >>= fun filled => filled.require standardKinds) =
      .ok standard := by
  have served : standardKinds ⊆ builtins.map (·.1) := by decide
  obtain ⟨r, made, holds⟩ := exists_holds holds_standard.distinct served
  rw [made, holds.unique holds_standard]

end ShortForm.Registry
