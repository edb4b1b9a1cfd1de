/-!
# Named values

Values under names, in an order that is kept. Looking up a name finds the first entry under it. A
value put under a name that is present takes the place of the old one, and one put under a new name
goes last; so names that were distinct stay distinct.
-/

namespace ShortForm

/-- Values under names, in order. -/
abbrev Named (α : Type) := List (String × α)

namespace Named

variable {α : Type}

/-- The names, in order. -/
def names (entries : Named α) : List String := entries.map (·.1)

/-- The value of the first entry under a name. -/
def get? (entries : Named α) (name : String) : Option α :=
  match entries with
  | [] => none
  | (k, v) :: rest => if k = name then some v else get? rest name

/-- Puts a value under a name: in place if the name is present, else last. -/
def put (entries : Named α) (name : String) (value : α) : Named α :=
  match entries with
  | [] => [(name, value)]
  | (k, v) :: rest => if k = name then (k, value) :: rest else (k, v) :: put rest name value

/-- Puts values under their names one after the other. -/
def putAll (entries more : Named α) : Named α :=
  more.foldl (fun all (name, value) => all.put name value) entries

/-- A value put under a new name goes last. -/
theorem put_of_not_mem {entries : Named α} {name : String} (new : name ∉ entries.names)
    (value : α) : entries.put name value = entries ++ [(name, value)] := by
  induction entries with
  | nil => rfl
  | cons entry rest ih =>
    obtain ⟨k, v⟩ := entry
    simp only [names, List.map_cons, List.mem_cons, not_or] at new
    rw [put, if_neg (Ne.symm new.1), ih new.2, List.cons_append]

theorem mem_of_get? {entries : Named α} {name : String} {value : α}
    (found : entries.get? name = some value) : (name, value) ∈ entries := by
  induction entries with
  | nil => simp [get?] at found
  | cons entry rest ih =>
    obtain ⟨k, v⟩ := entry
    by_cases same : k = name
    · simp only [get?, same, if_pos, Option.some.injEq] at found
      simp [same, found]
    · simp only [get?, if_neg same] at found
      exact List.mem_cons_of_mem _ (ih found)

end Named

end ShortForm
