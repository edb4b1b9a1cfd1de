import Mathlib.Data.List.Induction
import Mathlib.Data.List.Nodup
import Mathlib.Data.List.Perm.Subperm
import ShortForm.Named

/-!
# Laws of named values

Under distinct names every entry is found (`get?_of_mem`), and names stay distinct whatever is put
in (`nodup_names_put`). A value that is put in is found under its name and changes nothing else
(`get?_put`). So of values that are put in one after the other each name has the last
(`get?_putAll`), and stands where the first of them was put (`names_putAll`).
-/

namespace ShortForm.Named

variable {α : Type} {entries others : Named α} {name : String}

/-! ## Looking up -/

theorem get?_eq_none_iff : entries.get? name = none ↔ name ∉ entries.names := by
  induction entries with
  | nil => simp [get?, names]
  | cons entry rest ih =>
    obtain ⟨key, v⟩ := entry
    simp only [names] at ih
    by_cases same : key = name
    · simp [get?, names, same]
    · simp [get?, names, same, Ne.symm same, ih]

theorem mem_names : name ∈ entries.names ↔ ∃ v, (name, v) ∈ entries := by
  simp [names]

/-- Under distinct names every entry is found. -/
theorem get?_of_mem (distinct : entries.names.Nodup) {v : α} (mem : (name, v) ∈ entries) :
    entries.get? name = some v := by
  induction entries with
  | nil => cases mem
  | cons entry rest ih =>
    obtain ⟨key, w⟩ := entry
    obtain ⟨new, distinct⟩ := List.nodup_cons.mp distinct
    rcases List.mem_cons.mp mem with same | mem
    · cases same
      exact if_pos rfl
    · have other : key ≠ name := by
        rintro rfl
        exact new (List.mem_map.mpr ⟨_, mem, rfl⟩)
      rw [get?, if_neg other, ih distinct mem]

/-- What is found among more entries is found in front, or else behind. -/
theorem get?_append (before after : Named α) (name : String) :
    get? (before ++ after) name = (get? before name).or (get? after name) := by
  induction before with
  | nil => rfl
  | cons entry before ih =>
    rw [List.cons_append, get?, get?, ih]
    split <;> rfl

/-- Entries that are all found among the others have no other names. -/
theorem names_subset_of_get? {R : α → α → Prop}
    (found : ∀ name v, (name, v) ∈ entries → ∃ w, others.get? name = some w ∧ R v w) :
    entries.names ⊆ others.names := by
  intro name mem
  obtain ⟨v, mem⟩ := mem_names.mp mem
  obtain ⟨w, there, _⟩ := found name v mem
  exact mem_names.mpr ⟨w, mem_of_get? there⟩

/-- Of as many entries, none is under another name, if the distinct names of the first are all among
those of the others. -/
theorem mem_names_of_length_eq (distinct : entries.names.Nodup)
    (length : entries.length = others.length) (among : entries.names ⊆ others.names)
    (mem : name ∈ others.names) : name ∈ entries.names := by
  have same := (List.subperm_of_subset distinct among).perm_of_length_le (by
    simp only [names, List.length_map, length, Nat.le_refl])
  exact same.mem_iff.mpr mem

/-! ## Relations -/

/-- Entries under the same names that are related one by one are found related. -/
theorem rel_get? {R : α → α → Prop}
    (related : List.Forall₂ (fun entry other => entry.1 = other.1 ∧ R entry.2 other.2)
      entries others)
    (name : String) : Option.Rel R (entries.get? name) (others.get? name) := by
  induction related with
  | nil => exact .none
  | @cons entry other _ _ same _ ih =>
    obtain ⟨key, v⟩ := entry
    obtain ⟨_, w⟩ := other
    obtain ⟨rfl, same⟩ := same
    simp only [get?]
    split
    · exact .some same
    · exact ih

/-- What is related by name is related one by one, if the names are in the same order. -/
theorem forall₂_of_get? {R : α → α → Prop} (order : entries.names = others.names)
    (distinct : entries.names.Nodup)
    (found : ∀ name v, (name, v) ∈ entries → ∃ w, others.get? name = some w ∧ R v w) :
    List.Forall₂ (fun entry other => R entry.2 other.2) entries others := by
  induction entries generalizing others with
  | nil =>
    cases others with
    | nil => exact .nil
    | cons => cases order
  | cons entry rest ih =>
    obtain ⟨name, v⟩ := entry
    cases others with
    | nil => cases order
    | cons other others =>
      obtain ⟨key, w⟩ := other
      obtain ⟨rfl, behind⟩ : name = key ∧ names rest = names others := List.cons.inj order
      obtain ⟨new, distinct⟩ := List.nodup_cons.mp distinct
      refine .cons ?_ (ih behind distinct fun key u mem => ?_)
      · obtain ⟨_, here, related⟩ := found name v List.mem_cons_self
        cases (if_pos rfl).symm.trans here
        exact related
      · obtain ⟨w, there, related⟩ := found key u (List.mem_cons_of_mem _ mem)
        have other : name ≠ key := by
          rintro rfl
          exact new (List.mem_map.mpr ⟨_, mem, rfl⟩)
        exact ⟨w, by rwa [get?, if_neg other] at there, related⟩

/-! ## Putting in -/

/-- A value that is put in is found under its name, and what is under the others stays. -/
theorem get?_put (entries : Named α) (name key : String) (value : α) :
    (entries.put name value).get? key = if name = key then some value else entries.get? key := by
  induction entries with
  | nil => rfl
  | cons entry rest ih =>
    obtain ⟨k, v⟩ := entry
    rw [put]
    by_cases here : k = name
    · subst here
      rw [if_pos rfl, get?, get?]
      split <;> rfl
    · rw [if_neg here, get?, get?, ih]
      by_cases first : k = key
      · rw [if_pos first, if_pos first, if_neg fun same => here (first.trans same.symm)]
      · rw [if_neg first, if_neg first]

theorem names_put (entries : Named α) (name : String) (value : α) :
    (entries.put name value).names =
      if name ∈ entries.names then entries.names else entries.names ++ [name] := by
  induction entries with
  | nil => rfl
  | cons entry entries ih =>
    obtain ⟨k, v⟩ := entry
    have cons : ∀ v : α, ∀ rest : Named α, names ((k, v) :: rest) = k :: names rest :=
      fun _ _ => rfl
    rw [put]
    by_cases same : k = name
    · rw [if_pos same, cons, cons, if_pos (same ▸ List.mem_cons_self)]
    · simp only [if_neg same, cons, ih, List.mem_cons, Ne.symm same, false_or]
      by_cases present : name ∈ names entries
      · rw [if_pos present, if_pos present]
      · rw [if_neg present, if_neg present, List.cons_append]

theorem nodup_names_put (name : String) (value : α) (distinct : entries.names.Nodup) :
    (entries.put name value).names.Nodup := by
  rw [names_put]
  split
  · exact distinct
  · rename_i new
    refine List.nodup_append.mpr ⟨distinct, List.nodup_singleton name, fun a mem b here => ?_⟩
    obtain rfl := List.mem_singleton.mp here
    exact fun same => new (same ▸ mem)

/-! ## Putting in one after the other -/

theorem nodup_names_putAll (more : Named α) (distinct : entries.names.Nodup) :
    (entries.putAll more).names.Nodup := by
  induction more generalizing entries with
  | nil => exact distinct
  | cons entry more ih => exact ih (nodup_names_put entry.1 entry.2 distinct)

/-- Values under new names go behind the others. -/
theorem putAll_eq_append {more : Named α} (distinct : (entries.names ++ more.names).Nodup) :
    entries.putAll more = entries ++ more := by
  induction more generalizing entries with
  | nil => exact (List.append_nil entries).symm
  | cons entry more ih =>
    obtain ⟨key, v⟩ := entry
    have new : key ∉ entries.names := by
      intro mem
      exact (List.nodup_append.mp distinct).2.2 key mem key List.mem_cons_self rfl
    have distinct' : (names (entries ++ [(key, v)]) ++ names more).Nodup := by
      simpa [names] using distinct
    have step : entries.putAll ((key, v) :: more) = (entries.put key v).putAll more := rfl
    rw [step, put_of_not_mem new v, ih distinct', List.append_assoc]
    rfl

/-- Values under distinct names stay as they are. -/
theorem putAll_of_nodup (distinct : entries.names.Nodup) : putAll [] entries = entries :=
  @putAll_eq_append α [] entries distinct

/-- **A name has the value that was put in last**, or the one that was there before. -/
theorem get?_putAll (entries more : Named α) (name : String) :
    (entries.putAll more).get? name = (get? more.reverse name).or (entries.get? name) := by
  induction more generalizing entries with
  | nil => rfl
  | cons entry more ih =>
    obtain ⟨key, v⟩ := entry
    have step : entries.putAll ((key, v) :: more) = (entries.put key v).putAll more := rfl
    rw [step, ih, get?_put, List.reverse_cons, get?_append, Option.or_assoc]
    simp only [get?]
    split <;> rfl

/-- What comes under a name last is found. -/
theorem get?_putAll_of_last (entries before after : Named α) (name : String) (v : α)
    (last : name ∉ after.names) :
    (entries.putAll (before ++ (name, v) :: after)).get? name = some v := by
  have behind : get? after.reverse name = none :=
    get?_eq_none_iff.mpr (by rwa [names, List.map_reverse, List.mem_reverse])
  rw [get?_putAll, List.reverse_append, List.reverse_cons, List.append_assoc, get?_append, behind]
  simp [get?]

theorem get?_putAll_of_not_mem (entries : Named α) {more : Named α} {name : String}
    (absent : name ∉ more.names) : (entries.putAll more).get? name = entries.get? name := by
  have nowhere : get? more.reverse name = none :=
    get?_eq_none_iff.mpr (by rwa [names, List.map_reverse, List.mem_reverse])
  rw [get?_putAll, nowhere, Option.none_or]

/-- **Names stand in the order in which they first came.** -/
theorem names_putAll (more : Named α) : (putAll [] more).names = more.names.eraseDups := by
  induction more using List.reverseRecOn with
  | nil => rfl
  | append_singleton more entry ih =>
    obtain ⟨key, v⟩ := entry
    have step : putAll [] (more ++ [(key, v)]) = (putAll [] more).put key v := List.foldl_append ..
    have last : names (more ++ [(key, v)]) = names more ++ [key] := List.map_append
    rw [step, names_put, ih, last, List.eraseDups_append]
    by_cases present : key ∈ names more
    · have nothing : [key].removeAll (names more) = [] := by simp [List.removeAll, present]
      simp [present, nothing]
    · have itself : [key].removeAll (names more) = [key] := by simp [List.removeAll, present]
      simp [present, itself, List.eraseDups_cons]

end ShortForm.Named
