import ShortForm.Proofs.Json.Spelled

/-!
# Written values read back

What is written for a value is one of its texts, so a value that is written reads back, in front of
any text that cannot go on a number, as long as its brackets are nested no deeper than the reader
has room for; and if they are, the fault is that they are nested too deeply, whatever else the value
holds (`read_write`). The brackets of what is written are nested as deeply as those of the value
(`textNesting_text`), also where a number would not read back.

The members of a written object are treated apart from what they are read for: what a reader of
members makes of the text of one member it makes, by a fold, of the text of an object
(`objectRest_run`).
-/

namespace ShortForm

open Reader

/-! ## Values whose numbers read back -/

/-- The number reads back where it stands. -/
def Number.Legible (n : Number) : Prop :=
  ∀ rest, Numeral.Ends rest → Number.read.run (n.write ++ rest) = .ok (n, rest)

namespace Json

/-- Every number of the value has the property. -/
inductive EachNumber (holds : Number → Prop) : Json → Prop where
  | null : EachNumber holds .null
  | bool (b : Bool) : EachNumber holds (.bool b)
  | number {n : Number} : holds n → EachNumber holds (.number n)
  | string (s : String) : EachNumber holds (.string s)
  | array {items : List Json} : (∀ j ∈ items, EachNumber holds j) → EachNumber holds (.array items)
  | object {members : List (String × Json)} :
      (∀ member ∈ members, EachNumber holds member.2) → EachNumber holds (.object members)

/-- Every number of the value reads back where it stands. -/
abbrev Legible : Json → Prop := EachNumber Number.Legible

end Json

/-- A number that reads back is written with a minus sign or a digit in front. -/
theorem Number.Legible.start {n : Number} (legible : n.Legible) :
    ∃ c t, n.write = c :: t ∧ (c = '-' ∨ c.isDigit) := by
  have whole := legible [] Numeral.ends_nil
  rw [List.append_nil] at whole
  exact Number.start_of_read whole

namespace Json

/-! ## Brackets -/

variable {σ : Type} {text : Json → List Char → Prop} {items : List Json}

theorem moreListed_writeMoreItems (each : ∀ j ∈ items, text j j.write) :
    MoreListed text items (writeMoreItems items) := by
  induction items with
  | nil => exact .nil Blanks.nil
  | cons j items ih =>
    exact .cons Blanks.nil Blanks.nil (each j List.mem_cons_self)
      (ih fun k mem => each k (List.mem_cons_of_mem j mem))

/-- The items of an array are written with commas between them. -/
theorem listed_writeItems (each : ∀ j ∈ items, text j j.write) :
    Listed text items (writeItems items) := by
  cases items with
  | nil => exact .nil Blanks.nil
  | cons j items =>
    exact .cons Blanks.nil (each j List.mem_cons_self)
      (moreListed_writeMoreItems fun k mem => each k (List.mem_cons_of_mem j mem))

/-- A member as it is written. -/
def writeMember (m : String × Json) : List Char := writeString m.1 ++ ':' :: m.2.write

theorem moreListed_writeMoreMembers {text : String × Json → List Char → Prop}
    {members : List (String × Json)} (each : ∀ m ∈ members, text m (writeMember m)) :
    MoreListed text members (writeMoreMembers members) := by
  induction members with
  | nil => exact .nil Blanks.nil
  | cons m members ih =>
    have listed := MoreListed.cons Blanks.nil Blanks.nil (each m List.mem_cons_self)
      (ih fun k mem => each k (List.mem_cons_of_mem m mem))
    simpa [writeMoreMembers, writeMember] using listed

/-- The members of an object are written with commas between them. -/
theorem listed_writeMembers {text : String × Json → List Char → Prop}
    {members : List (String × Json)} (each : ∀ m ∈ members, text m (writeMember m)) :
    Listed text members (writeMembers members) := by
  cases members with
  | nil => exact .nil Blanks.nil
  | cons m members =>
    have listed := Listed.cons Blanks.nil (each m List.mem_cons_self)
      (moreListed_writeMoreMembers fun k mem => each k (List.mem_cons_of_mem m mem))
    simpa [writeMembers, writeMember] using listed

/-- A member is written as a text of it if its value is. -/
theorem memberText_writeMember {m : String × Json} (value : text m.2 m.2.write) :
    MemberText text m (writeMember m) :=
  .mk (stringText_writeString m.1) Blanks.nil Blanks.nil value

/-- What follows a member ends a numeral. -/
theorem ends_writeMoreMembers (members : List (String × Json)) (rest : List Char) :
    Numeral.Ends (writeMoreMembers members ++ '\x7d' :: rest) := by
  cases members with
  | nil => exact Numeral.ends_cons (by decide)
  | cons m members => exact Numeral.ends_cons (by decide)

section Members

variable {member : σ → String → Reader σ} {f : σ → String × Json → Except Fault σ}
  {members : List (String × Json)}

/-- The name of a member is read, and the rest begins with the colon. -/
theorem memberName_run (name : String) (rest : List Char) :
    (memberName stringRest).run (writeString name ++ rest) = .ok (name, rest) := by
  rw [writeString_append]
  simp [memberName, isBlank, stringRest_run]

theorem beginsValue_writeString (name : String) (rest : List Char) :
    BeginsValue (writeString name ++ rest) := by
  rw [writeString_append]
  exact ⟨'"', _, rfl, by decide, by decide, by decide⟩

/-- One more member: the reader of members is run behind the name, and the loop goes on. -/
theorem moreMembers_cons (member : σ → String → Reader σ) (state : σ) (name : String) (j : Json)
    (members : List (String × Json)) (rest : List Char) :
    (moreMembers (refuseClosing '\x7d') stringRest member state).run
        (writeMoreMembers ((name, j) :: members) ++ '\x7d' :: rest) =
      (do
        let state' ← member state name
        moreMembers (refuseClosing '\x7d') stringRest member state').run
        (':' :: (j.write ++ (writeMoreMembers members ++ '\x7d' :: rest))) := by
  have text : writeMoreMembers ((name, j) :: members) ++ '\x7d' :: rest =
      ',' :: (writeString name ++
        ':' :: (j.write ++ (writeMoreMembers members ++ '\x7d' :: rest))) := by
    simp [writeMoreMembers]
  have refused := refuseClosing_run Blanks.nil (beginsValue_writeString name
    (':' :: (j.write ++ (writeMoreMembers members ++ '\x7d' :: rest)))) (.inr rfl)
  rw [List.nil_append] at refused
  rw [text, moreMembers_comma]
  simp only [run_bind, refused, memberName_run]

/-- The first member: the reader of members is run behind the name, and the loop begins. -/
theorem objectRest_cons (member : σ → String → Reader σ) (state : σ) (name : String) (j : Json)
    (members : List (String × Json)) (rest : List Char) :
    (objectRest (refuseClosing '\x7d') stringRest member state).run
        (writeMembers ((name, j) :: members) ++ '\x7d' :: rest) =
      (do
        let state' ← member state name
        moreMembers (refuseClosing '\x7d') stringRest member state').run
        (':' :: (j.write ++ (writeMoreMembers members ++ '\x7d' :: rest))) := by
  have text : writeMembers ((name, j) :: members) ++ '\x7d' :: rest =
      writeString name ++
        ':' :: (j.write ++ (writeMoreMembers members ++ '\x7d' :: rest)) := by
    simp [writeMembers]
  have named := memberName_run name
    (':' :: (j.write ++ (writeMoreMembers members ++ '\x7d' :: rest)))
  obtain ⟨c, t, eq, solid, _, close⟩ := beginsValue_writeString name
    (':' :: (j.write ++ (writeMoreMembers members ++ '\x7d' :: rest)))
  rw [text]
  rw [eq] at named ⊢
  have opens : (objectRest (refuseClosing '\x7d') stringRest member state).run (c :: t) =
      (do
        let name ← memberName stringRest
        let state' ← member state name
        moreMembers (refuseClosing '\x7d') stringRest member state').run (c :: t) := by
    simp [objectRest, solid, close]
  rw [opens]
  simp only [run_bind, named]

/-- **Members between brackets.** If the text of each member is read as `f` says, the text of an
object is read as the fold of `f` over the members says, and the fault is the first that `f`
reports. -/
theorem objectRest_run
    (reads : ∀ m ∈ members, ∀ state rest, Numeral.Ends rest →
      (member state m.1).run (':' :: (m.2.write ++ rest)) = (f state m).map (·, rest))
    (state : σ) (rest : List Char) :
    (objectRest (refuseClosing '\x7d') stringRest member state).run
        (writeMembers members ++ '\x7d' :: rest) =
      (members.foldlM f state).map (·, rest) := by
  have listed : Listed (fun m u => u = writeMember m) members (writeMembers members) :=
    listed_writeMembers fun _ _ => rfl
  refine listed.objectRest_run (fun m mem => ?_) state rest
  rintro _ rfl
  refine ⟨beginsValue_writeString m.1 _, fun state rest ends => ?_⟩
  rw [writeMember, List.append_assoc, run_bind, memberName_run]
  exact reads m mem state rest ends

end Members

/-! ## Values -/

/-- A number that has the property, as it is written. -/
def Written (holds : Number → Prop) (n : Number) (t : List Char) : Prop := t = n.write ∧ holds n

theorem areNumerals_written {holds : Number → Prop}
    (start : ∀ {n : Number}, holds n → ∃ c t, n.write = c :: t ∧ (c = '-' ∨ c.isDigit)) :
    AreNumerals (Written holds) where
  start := by
    rintro n _ ⟨rfl, here⟩
    exact start here
  parts := by
    rintro n _ ⟨rfl, _⟩ c mem
    exact Number.isPart_of_mem_write mem

/-- What is written for a value is a text of it. -/
theorem EachNumber.textOf {holds : Number → Prop} {j : Json} (each : j.EachNumber holds) :
    TextOf (Written holds) j j.write := by
  induction each with
  | null => exact .null
  | bool b =>
    cases b with
    | true => exact .yes
    | false => exact .no
  | number here => exact .number ⟨rfl, here⟩
  | string s => exact .string (stringText_writeString s)
  | array _ ih => exact .array (listed_writeItems ih)
  | object _ ih =>
    exact .object (listed_writeMembers fun m mem => memberText_writeMember (ih m mem))

/-- The text of a value is nested as deeply as the value. -/
theorem textNesting_text (j : Json) : textNesting j.text = j.nesting := by
  have each : j.EachNumber fun _ => True := by
    induction j using induct with
    | null => exact .null
    | bool b => exact .bool b
    | number n => exact .number trivial
    | string s => exact .string s
    | array items ih => exact .array ih
    | object members ih => exact .object ih
  have parts : ∀ {n t}, Written (fun _ => True) n t → ∀ c ∈ t, Numeral.isPart c := by
    rintro n _ ⟨rfl, _⟩ c mem
    exact Number.isPart_of_mem_write mem
  have whole := each.textOf.deepest parts 0 []
  rw [List.append_nil] at whole
  rw [textNesting, text, String.toList_ofList, whole]
  simp [deepest]

/-- A number that reads back is written as it is spelled. -/
theorem Written.spelledBy {n : Number} {t : List Char} (written : Written Number.Legible n t) :
    n.SpelledBy t := by
  obtain ⟨rfl, legible⟩ := written
  obtain ⟨t, eq, spelled⟩ := Number.read_takes (legible [] Numeral.ends_nil)
  rwa [← List.append_cancel_right eq] at spelled

/-- The text of a value whose numbers read back spells it. -/
theorem Legible.spelledIn {j : Json} (legible : j.Legible) : j.SpelledIn j.text := by
  have spelled : j.SpelledBy j.write := legible.textOf.mono fun _ _ written => written.spelledBy
  refine .mk Blanks.nil spelled Blanks.nil ?_
  rw [Json.text, String.toList_ofList, List.append_nil, List.nil_append]

/-- **A written value reads back**, if its brackets are nested no deeper than there is room for; and
if they are, that is the fault. -/
theorem read_write {j : Json} (legible : j.Legible) (room : Nat) (rest : List Char)
    (ends : Numeral.Ends rest) :
    (read room).run (j.write ++ rest) = (within j.nesting room j).map (·, rest) := by
  have back : ReadBack (Written Number.Legible) := by
    rintro n _ ⟨rfl, legible⟩ rest ends
    exact legible rest ends
  exact legible.textOf.read (areNumerals_written (·.start)) back room rest ends

end Json
end ShortForm
