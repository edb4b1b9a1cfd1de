import ShortForm.Proofs.Json.SpelledNumber
import ShortForm.Proofs.Json.SpelledString

/-!
# The texts of JSON values

The grammar of JSON, apart from the reader. A value has many texts: there may be blanks between
its tokens, characters of strings may be escaped, and numbers written in several ways. The texts of
a value are given by the texts of its numbers (`TextOf`): the reader knows them by their numerals,
the writer by the one that it writes.

If numbers read back, a text of a value is read as that value, or the fault is that its brackets are
nested too deeply (`TextOf.read`); and what is read as a value is a text of it (`read_takes`). The
brackets of a text of a value are nested as deeply as those of the value (`TextOf.deepest`), and a
text is a text of one value only if that is so for numbers (`TextOf.unique`).
-/

namespace ShortForm.Json

open Reader

/-! ## Induction -/

/-- What holds of a value if it holds of the values in it holds of every value. -/
@[elab_as_elim]
theorem induct {P : Json → Prop} (null : P .null) (bool : ∀ b, P (.bool b))
    (number : ∀ n, P (.number n)) (string : ∀ s, P (.string s))
    (array : ∀ items, (∀ j ∈ items, P j) → P (.array items))
    (object : ∀ members, (∀ m ∈ members, P m.2) → P (.object members)) (j : Json) : P j := by
  refine @Json.rec P (fun items => ∀ j ∈ items, P j) (fun members => ∀ m ∈ members, P m.2)
    (fun m => P m.2) null bool number string (fun items => array items)
    (fun members => object members) ?_ ?_ ?_ ?_ (fun _ _ value => value) j
  · intro j mem
    cases mem
  · intro j items here later k mem
    rcases List.mem_cons.mp mem with rfl | mem
    · exact here
    · exact later k mem
  · intro m mem
    cases mem
  · intro m members here later k mem
    rcases List.mem_cons.mp mem with rfl | mem
    · exact here
    · exact later k mem

/-! ## The grammar -/

/-- The text of a member: its name, a colon, and a text of its value. -/
inductive MemberText (text : Json → List Char → Prop) : String × Json → List Char → Prop where
  | mk {name : String} {j : Json} {nameText gap gap' t : List Char} : StringText name nameText →
      Blanks gap → Blanks gap' → text j t →
      MemberText text (name, j) (nameText ++ (gap ++ ':' :: (gap' ++ t)))

/-- The texts of a value, by the texts of numbers. -/
inductive TextOf (numbers : Number → List Char → Prop) : Json → List Char → Prop where
  | null : TextOf numbers .null "null".toList
  | yes : TextOf numbers (.bool true) "true".toList
  | no : TextOf numbers (.bool false) "false".toList
  | number {n : Number} {t : List Char} : numbers n t → TextOf numbers (.number n) t
  | string {s : String} {t : List Char} : StringText s t → TextOf numbers (.string s) t
  | array {items : List Json} {t : List Char} : Listed (TextOf numbers) items t →
      TextOf numbers (.array items) ('[' :: (t ++ [']']))
  | object {members : List (String × Json)} {t : List Char} :
      Listed (MemberText (TextOf numbers)) members t →
      TextOf numbers (.object members) ('\x7b' :: (t ++ ['\x7d']))

/-- The text is one of the value, with its numbers in any spelling. -/
abbrev SpelledBy : Json → List Char → Prop := TextOf Number.SpelledBy

/-- Texts of numbers begin like numerals and are made of the characters of numerals. -/
structure AreNumerals (numbers : Number → List Char → Prop) : Prop where
  start : ∀ {n t}, numbers n t → ∃ c u, t = c :: u ∧ (c = '-' ∨ c.isDigit)
  parts : ∀ {n t}, numbers n t → ∀ c ∈ t, Numeral.isPart c

theorem areNumerals_spelledBy : AreNumerals Number.SpelledBy where
  start := by
    rintro n t ⟨_, spelled, _⟩
    exact spelled.start
  parts := by
    rintro n t ⟨_, spelled, _⟩
    exact spelled.isPart

variable {numbers : Number → List Char → Prop} {j : Json} {t : List Char}

/-- With more texts of numbers there are more texts of values. -/
theorem TextOf.mono {numbers' : Number → List Char → Prop}
    (each : ∀ n t, numbers n t → numbers' n t) (text : TextOf numbers j t) :
    TextOf numbers' j t := by
  induction j using induct generalizing t with
  | null =>
    cases text
    exact .null
  | bool b =>
    cases text with
    | yes => exact .yes
    | no => exact .no
  | number n =>
    cases text with
    | number here => exact .number (each n t here)
  | string s =>
    cases text with
    | string here => exact .string here
  | array items ih =>
    cases text with
    | array listed => exact .array (listed.mono fun j mem u here => ih j mem here)
  | object members ih =>
    cases text with
    | object listed =>
      refine .object (listed.mono fun m mem u here => ?_)
      obtain ⟨named, blanks, behind, here⟩ := here
      exact .mk named blanks behind (ih _ mem here)

theorem TextOf.beginsValue (numerals : AreNumerals numbers) (text : TextOf numbers j t) :
    BeginsValue t := by
  cases text with
  | null => exact ⟨'n', "ull".toList, rfl, by decide, by decide, by decide⟩
  | yes => exact ⟨'t', "rue".toList, rfl, by decide, by decide, by decide⟩
  | no => exact ⟨'f', "alse".toList, rfl, by decide, by decide, by decide⟩
  | number here =>
    obtain ⟨c, u, rfl, start⟩ := numerals.start here
    refine ⟨c, u, rfl, ?_⟩
    rcases start with rfl | digit
    · decide
    · have other := @Numeral.ne_of_isDigit c
      simp [isBlank, other digit]
  | string here =>
    cases here
    exact ⟨'"', _, rfl, by decide, by decide, by decide⟩
  | array _ => exact ⟨'[', _, rfl, by decide, by decide, by decide⟩
  | object _ => exact ⟨'\x7b', _, rfl, by decide, by decide, by decide⟩

theorem MemberText.beginsValue {text : Json → List Char → Prop} {m : String × Json}
    (here : MemberText text m t) : BeginsValue t := by
  obtain ⟨⟨_⟩, _, _, _⟩ := here
  exact ⟨'"', _, rfl, by decide, by decide, by decide⟩

/-! ## Reading -/

/-- What reading a value of this nesting with this much room comes to. -/
def within {α : Type} (nesting room : Nat) (a : α) : Except Fault α :=
  if nesting ≤ room then .ok a else .error .tooDeep

theorem within_of_le {α : Type} {nesting room : Nat} (fits : nesting ≤ room) (a : α) :
    within nesting room a = .ok a := if_pos fits

theorem within_of_lt {α : Type} {nesting room : Nat} (deep : room < nesting) (a : α) :
    within nesting room a = .error .tooDeep := if_neg (Nat.not_le.mpr deep)

theorem within_map {α β : Type} (nesting room : Nat) (a : α) (f : α → β) :
    (within nesting room a).map f = within nesting room (f a) := by
  unfold within
  split <;> rfl

theorem within_succ {α : Type} (nesting room : Nat) (a : α) :
    within (nesting + 1) (room + 1) a = within nesting room a := by
  simp [within]

/-- What goes one by one through values with this much room goes through all of them, or stops at
the first that is nested too deeply. -/
theorem within_bind {α β : Type} (first more room : Nat) (a : α) (f : α → Except Fault β) (b : β)
    (next : f a = within more room b) :
    within first room a >>= f = within (max first more) room b := by
  rcases Nat.lt_or_ge room first with deep | fits
  · rw [within_of_lt deep, within_of_lt (by omega)]
    rfl
  · rw [within_of_le fits]
    apply Eq.trans next
    simp only [within, Nat.max_le, fits, true_and]

theorem foldlM_items (room : Nat) (items before : List Json) :
    items.foldlM (fun before j => within j.nesting room (j :: before)) before =
      within (itemsNesting items) room (items.reverse ++ before) := by
  induction items generalizing before with
  | nil => exact (within_of_le (Nat.zero_le _) _).symm
  | cons j items ih =>
    rw [List.foldlM_cons, itemsNesting, List.reverse_cons, List.append_assoc]
    exact within_bind _ _ _ _ _ _ (ih (j :: before))

theorem foldlM_members (room : Nat) (members before : List (String × Json)) :
    members.foldlM (fun before m => within m.2.nesting room (m :: before)) before =
      within (membersNesting members) room (members.reverse ++ before) := by
  induction members generalizing before with
  | nil => exact (within_of_le (Nat.zero_le _) _).symm
  | cons m members ih =>
    rw [List.foldlM_cons, membersNesting, List.reverse_cons, List.append_assoc]
    exact within_bind _ _ _ _ _ _ (ih (m :: before))

/-- A scalar has no brackets that could go too deep. -/
theorem within_scalar {j : Json} (scalar : j.nesting = 0) (room : Nat) :
    within j.nesting room j = .ok j := by
  rw [within_of_le (by omega)]

theorem Blanks.colon_run {gap : List Char} (blanks : Blanks gap) (rest : List Char) :
    colon.run (gap ++ ':' :: rest) = .ok ((), rest) := by
  have front : (gap ++ ':' :: rest).dropWhile isBlank = ':' :: rest :=
    (blanks.dropWhile_append _).trans rfl
  simp [colon, front]

theorem colon_run (rest : List Char) : colon.run (':' :: rest) = .ok ((), rest) :=
  Blanks.nil.colon_run rest

/-- The name of a member is read, and the rest begins in front of the colon. -/
theorem StringText.memberName {name : String} {nameText : List Char}
    (text : StringText name nameText) (rest : List Char) :
    (memberName stringRest).run (nameText ++ rest) = .ok (name, rest) := by
  obtain ⟨spells⟩ := text
  simp [Json.memberName, isBlank, spells.read rest]

theorem read_blanks {gap : List Char} (blanks : Blanks gap) (room : Nat) (s : List Char) :
    (read room).run (gap ++ s) = (read room).run s := by
  obtain ⟨list, object, eq⟩ := read_eq_readScalarOr room
  rw [eq, readScalarOr, valueBy_blanks, blanks.dropWhile_append, ← valueBy_blanks]

/-- The text of a number is read as that number where it stands. -/
def ReadBack (numbers : Number → List Char → Prop) : Prop :=
  ∀ ⦃n t⦄, numbers n t → ∀ rest, Numeral.Ends rest → Number.read.run (t ++ rest) = .ok (n, rest)

/-- **A text of a value is read as that value**, if its brackets are nested no deeper than there is
room for; and if they are, that is the fault. -/
theorem TextOf.read (numerals : AreNumerals numbers) (back : ReadBack numbers)
    (text : TextOf numbers j t) (room : Nat) (rest : List Char) (ends : Numeral.Ends rest) :
    (read room).run (t ++ rest) = (within j.nesting room j).map (·, rest) := by
  obtain ⟨list, object, eq⟩ := read_eq_readScalarOr room
  induction j using induct generalizing t room rest list object with
  | null =>
    cases text
    rw [eq, within_scalar rfl]
    exact valueBy_null _ _ _ _ list object rest
  | bool b =>
    rw [eq, within_scalar rfl]
    cases text with
    | yes => exact valueBy_true _ _ _ _ list object rest
    | no => exact valueBy_false _ _ _ _ list object rest
  | number n =>
    cases text with
    | number here =>
      obtain ⟨c, u, rfl, start⟩ := numerals.start here
      have reads : (do
          let n ← Number.read
          pure (Json.number n) : Reader Json).run (c :: u ++ rest) = .ok (.number n, rest) := by
        rw [run_bind, back here rest ends]
        rfl
      rw [eq, within_scalar rfl]
      exact (valueBy_number _ _ _ _ list object _ start).trans reads
  | string s =>
    cases text with
    | string here =>
      obtain ⟨spells⟩ := here
      have reads := spells.read rest
      rw [eq, within_scalar rfl, readScalarOr, List.cons_append, List.append_assoc, valueBy_string,
        run_bind]
      simp only [List.cons_append, List.nil_append, reads]
      rfl
  | array items ih =>
    cases text with
    | @array _ t listed =>
      simp only [List.cons_append, List.append_assoc, List.nil_append]
      cases room with
      | zero =>
        rw [Json.read, readScalarOr, valueBy_list]
        rfl
      | succ room =>
        obtain ⟨list, object, eq⟩ := read_eq_readScalarOr room
        have opens : (Json.read (room + 1)).run ('[' :: (t ++ ']' :: rest)) =
            (arrayRest (Json.read room)).run (t ++ ']' :: rest) := by
          rw [Json.read, readScalarOr, valueBy_list]
          rfl
        have reads : ∀ j ∈ items, ReadAs (TextOf numbers) (item (Json.read room))
            (fun before j => within j.nesting room (j :: before)) j := by
          refine fun j mem u here => ⟨here.beginsValue numerals, fun before rest ends => ?_⟩
          rw [item, run_bind, ih j mem here room rest ends list object eq]
          simp only [within_map]
          rcases Nat.lt_or_ge room j.nesting with deep | fits
          · simp only [within_of_lt deep]
          · simp only [within_of_le fits, run_pure]
        rw [opens, arrayRest, run_bind, listed.listRest_run reads, foldlM_items, nesting,
          within_succ]
        rcases Nat.lt_or_ge room (itemsNesting items) with deep | fits
        · simp only [within_of_lt deep, Except.map]
        · simp only [within_of_le fits, Except.map, run_pure, List.append_nil, List.reverse_reverse]
  | object members ih =>
    cases text with
    | @object _ t listed =>
      simp only [List.cons_append, List.append_assoc, List.nil_append]
      cases room with
      | zero =>
        rw [Json.read, readScalarOr, valueBy_object]
        rfl
      | succ room =>
        obtain ⟨list, object, eq⟩ := read_eq_readScalarOr room
        have opens : (Json.read (room + 1)).run ('\x7b' :: (t ++ '\x7d' :: rest)) =
            (membersRest (Json.read room)).run (t ++ '\x7d' :: rest) := by
          rw [Json.read, readScalarOr, valueBy_object]
          rfl
        have reads : ∀ m ∈ members, ReadAs (MemberText (TextOf numbers))
            (fun before => memberName stringRest >>= member (Json.read room) before)
            (fun before m => within m.2.nesting room (m :: before)) m := by
          intro m mem u here
          refine ⟨here.beginsValue, fun before rest ends => ?_⟩
          obtain @⟨name, j, nameText, gap, gap', t, named, blanks, behind, here⟩ := here
          have value := ih _ mem here room rest ends list object eq
          simp only [List.append_assoc, List.cons_append]
          rw [run_bind, named.memberName]
          simp only [member, run_bind, blanks.colon_run, read_blanks behind, value, within_map]
          rcases Nat.lt_or_ge room j.nesting with deep | fits
          · simp only [within_of_lt deep]
          · simp only [within_of_le fits, run_pure]
        rw [opens, membersRest, run_bind, listed.objectRest_run reads, foldlM_members, nesting,
          within_succ]
        rcases Nat.lt_or_ge room (membersNesting members) with deep | fits
        · simp only [within_of_lt deep, Except.map]
        · simp only [within_of_le fits, Except.map, run_pure, List.append_nil, List.reverse_reverse]

/-! ## What is read -/

theorem memberName_takes : (memberName stringRest).Takes fun name t =>
    ∃ gap u, t = gap ++ u ∧ Blanks gap ∧ StringText name u := by
  refine blanks_takes.bind fun _ gap blanks => ?_
  intro s name rest run
  cases s with
  | nil => cases run
  | cons c s =>
    by_cases quote : c = '"'
    · subst quote
      have behind : stringRest.run s = .ok (name, rest) := run
      obtain ⟨_, rfl, u, rfl, spells⟩ := stringRest_takes behind
      exact ⟨_, rfl, gap, _, rfl, blanks, .mk spells⟩
    · simp [quote] at run

theorem colon_takes : colon.Takes fun _ t => ∃ gap, t = gap ++ [':'] ∧ Blanks gap := by
  refine blanks_takes.bind fun _ gap blanks => ?_
  intro s _ rest run
  cases s with
  | nil => cases run
  | cons c s =>
    by_cases mark : c = ':'
    · subst mark
      cases run
      exact ⟨_, rfl, gap, rfl, blanks⟩
    · simp [mark] at run

theorem word_takes (letters : List Char) : (word letters).Takes fun _ t => t = letters := by
  induction letters with
  | nil => exact Takes.pure rfl
  | cons c letters ih =>
    intro s _ rest run
    cases s with
    | nil => cases run
    | cons d s =>
      by_cases same : d = c
      · subst same
        have behind : (word letters).run s = .ok ((), rest) := by
          simpa [word] using run
        obtain ⟨_, rfl, rfl⟩ := ih behind
        exact ⟨_, rfl, rfl⟩
      · simp [word, same] at run

/-- The reader gives a value and takes a text of it, maybe behind blanks. -/
def TakesValue (p : Reader Json) : Prop :=
  p.Takes fun j t => ∃ gap u, t = gap ++ u ∧ Blanks gap ∧ j.SpelledBy u

theorem readScalarOr_takes {list object : Reader Json}
    (list_takes : ∀ ⦃s j rest⦄, list.run ('[' :: s) = .ok (j, rest) →
      ∃ t, '[' :: s = t ++ rest ∧ j.SpelledBy t)
    (object_takes : ∀ ⦃s j rest⦄, object.run ('\x7b' :: s) = .ok (j, rest) →
      ∃ t, '\x7b' :: s = t ++ rest ∧ j.SpelledBy t) :
    TakesValue (readScalarOr list object) := by
  refine blanks_takes.bind fun _ gap blanks => ?_
  suffices value : Takes _ SpelledBy from value.mono fun j u here => ⟨gap, u, rfl, blanks, here⟩
  intro s j rest run
  rw [run_bind, run_peek] at run
  cases s with
  | nil => cases run
  | cons c s =>
    simp only [List.head?_cons] at run
    split at run
    · obtain ⟨_, middle, letters, last⟩ := run_bind_eq_ok.mp run
      obtain ⟨_, eq, rfl⟩ := word_takes _ letters
      cases last
      exact ⟨_, eq, .null⟩
    split at run
    · obtain ⟨_, middle, letters, last⟩ := run_bind_eq_ok.mp run
      obtain ⟨_, eq, rfl⟩ := word_takes _ letters
      cases last
      exact ⟨_, eq, .yes⟩
    split at run
    · obtain ⟨_, middle, letters, last⟩ := run_bind_eq_ok.mp run
      obtain ⟨_, eq, rfl⟩ := word_takes _ letters
      cases last
      exact ⟨_, eq, .no⟩
    split at run
    · obtain ⟨n, middle, reads, last⟩ := run_bind_eq_ok.mp run
      obtain ⟨t, eq, here⟩ := Number.read_takes reads
      cases last
      exact ⟨t, eq, .number here⟩
    split at run
    · rename_i quote
      subst quote
      rw [run_bind, run_next, List.tail_cons] at run
      obtain ⟨text, middle, reads, last⟩ := run_bind_eq_ok.mp run
      obtain ⟨_, rfl, u, rfl, spells⟩ := stringRest_takes reads
      cases last
      exact ⟨_, rfl, .string (.mk spells)⟩
    split at run
    · rename_i opens
      subst opens
      exact list_takes run
    split at run
    · rename_i opens
      subst opens
      exact object_takes run
    · cases run

/-- **What is read as a value is a text of it**, maybe behind blanks. -/
theorem read_takes (room : Nat) : TakesValue (Json.read room) := by
  induction room with
  | zero => exact readScalarOr_takes (fun _ _ _ run => by cases run) fun _ _ _ run => by cases run
  | succ room ih =>
    have item_takes : TakesItem SpelledBy (item (Json.read room)) fun before j => j :: before := by
      refine fun before => ih.bind ?_
      rintro j _ ⟨gap, u, rfl, blanks, here⟩
      exact Takes.pure ⟨j, gap, u, rfl, List.append_nil _, blanks, here⟩
    have member_takes : TakesItem (MemberText SpelledBy)
        (fun before => memberName stringRest >>= member (Json.read room) before)
        fun before m => m :: before := by
      refine fun before => memberName_takes.bind ?_
      rintro name _ ⟨gap, nameText, rfl, blanks, named⟩
      refine colon_takes.bind ?_
      rintro _ _ ⟨gap₁, rfl, blanks₁⟩
      refine ih.bind ?_
      rintro j _ ⟨gap₂, u, rfl, blanks₂, here⟩
      exact Takes.pure ⟨(name, j), gap, _, rfl, by simp, blanks, .mk named blanks₁ blanks₂ here⟩
    refine readScalarOr_takes ?_ ?_
    · intro s j rest run
      have behind : (arrayRest (Json.read room)).run s = .ok (j, rest) := run
      obtain ⟨after, middle, taken, last⟩ := run_bind_eq_ok.mp behind
      obtain ⟨_, rfl, items, u, rfl, rfl, listed⟩ :=
        listRest_takes item_takes (refuseClosing_takes ']') [] taken
      cases last
      rw [List.foldl_flip_cons_eq_append', List.append_nil, List.reverse_reverse]
      exact ⟨_, rfl, .array listed⟩
    · intro s j rest run
      have behind : (membersRest (Json.read room)).run s = .ok (j, rest) := run
      obtain ⟨after, middle, taken, last⟩ := run_bind_eq_ok.mp behind
      obtain ⟨_, rfl, members, u, rfl, rfl, listed⟩ :=
        objectRest_takes member_takes (refuseClosing_takes '\x7d') [] taken
      cases last
      rw [List.foldl_flip_cons_eq_append', List.append_nil, List.reverse_reverse]
      exact ⟨_, rfl, .object listed⟩

/-! ## Nesting -/

theorem itemsNesting_eq (items : List Json) :
    itemsNesting items = (items.map nesting).foldr max 0 := by
  induction items with
  | nil => rfl
  | cons j items ih => rw [itemsNesting, ih, List.map_cons, List.foldr_cons]

theorem membersNesting_eq (members : List (String × Json)) :
    membersNesting members = (members.map fun m => m.2.nesting).foldr max 0 := by
  induction members with
  | nil => rfl
  | cons m members ih => rw [membersNesting, ih, List.map_cons, List.foldr_cons]

/-- Inside a string only quotes and backslashes count. -/
theorem deepest_inside {w : List Char} (plain : ∀ c ∈ w, c ≠ '"' ∧ c ≠ '\\') (opened : Nat)
    (rest : List Char) : deepest .inString opened (w ++ rest) = deepest .inString opened rest := by
  induction w with
  | nil => rfl
  | cons c w ih =>
    have head := plain c List.mem_cons_self
    simp only [List.cons_append, deepest, head, if_false]
    exact ih fun d mem => plain d (List.mem_cons_of_mem c mem)

theorem HexUnit.plain {n : Nat} (unit : HexUnit n t) : ∀ c ∈ t, c ≠ '"' ∧ c ≠ '\\' := by
  have digit : ∀ {c : Char} {d : Nat}, hexDigit? c = some d → c ≠ '"' ∧ c ≠ '\\' := by
    intro c d eq
    have quote : hexDigit? '"' = none := by decide
    have backslash : hexDigit? '\\' = none := by decide
    constructor
    · rintro rfl
      simp [quote] at eq
    · rintro rfl
      simp [backslash] at eq
  unfold HexUnit Json.hexFront? at unit
  split at unit
  · rename_i a b c d more
    split at unit
    · rename_i first second third fourth
      obtain ⟨_, rfl⟩ := Prod.mk.inj (Option.some.inj unit)
      simp [digit first, digit second, digit third, digit fourth]
    · cases unit
  · cases unit

/-- What stands for a character keeps a string open. -/
theorem SpellsChar.deepest {c : Char} (spells : SpellsChar c t) (opened : Nat) (rest : List Char) :
    deepest .inString opened (t ++ rest) = deepest .inString opened rest := by
  have mark : ∀ s, Json.deepest .inString opened ('\\' :: 'u' :: s) =
      Json.deepest .inString opened s := by
    intro s
    simp [Json.deepest]
  cases spells with
  | plain quote backslash _ => exact deepest_inside (by simp [quote, backslash]) opened rest
  | letter _ => simp [Json.deepest]
  | unicode unit =>
    rw [List.cons_append, List.cons_append, mark]
    cases unit with
    | single unit _ _ => exact deepest_inside unit.plain opened rest
    | pair first second _ _ _ =>
      simp only [List.append_assoc, List.cons_append]
      rw [deepest_inside first.plain, mark, deepest_inside second.plain]

/-- A string does not count, whatever its characters are. -/
theorem StringText.deepest {s : String} (text : StringText s t) (opened : Nat) (rest : List Char) :
    deepest .outside opened (t ++ rest) = deepest .outside opened rest := by
  obtain @⟨t, spells⟩ := text
  have inside : ∀ {cs t : List Char}, SpellsInside cs t →
      Json.deepest .inString opened (t ++ '"' :: rest) = Json.deepest .outside opened rest := by
    intro cs t spells
    induction spells with
    | nil => simp [Json.deepest]
    | cons here _ ih => rw [List.append_assoc, here.deepest, ih]
  simpa [Json.deepest] using inside spells

/-- **A text of a value counts with the nesting of the value.** -/
theorem TextOf.deepest (parts : ∀ {n t}, numbers n t → ∀ c ∈ t, Numeral.isPart c)
    (text : TextOf numbers j t) (opened : Nat) (rest : List Char) :
    deepest .outside opened (t ++ rest) =
      max (opened + j.nesting) (deepest .outside opened rest) := by
  induction j using induct generalizing t opened rest with
  | null =>
    cases text
    exact deepest_flat (deepest_plain (by simp) opened rest)
  | bool b =>
    cases text with
    | yes => exact deepest_flat (deepest_plain (by simp) opened rest)
    | no => exact deepest_flat (deepest_plain (by simp) opened rest)
  | number n =>
    cases text with
    | number here =>
      refine deepest_flat (deepest_plain (fun c mem mark => ?_) opened rest)
      have part := parts here c mem
      simp only [List.mem_cons, List.not_mem_nil, or_false] at mark
      rcases mark with rfl | rfl | rfl | rfl | rfl <;> exact absurd part (by decide)
  | string s =>
    cases text with
    | string here => exact deepest_flat (here.deepest opened rest)
  | array items ih =>
    cases text with
    | @array _ t listed =>
      have opens : Json.deepest .outside opened ('[' :: (t ++ [']']) ++ rest) =
          Json.deepest .outside (opened + 1) (t ++ ']' :: rest) := by
        simp [Json.deepest]
      rw [opens, listed.deepest fun j mem u here => ih j mem here, deepest_close (.inl rfl),
        nesting, itemsNesting_eq]
      omega
  | object members ih =>
    cases text with
    | @object _ t listed =>
      have opens : Json.deepest .outside opened ('\x7b' :: (t ++ ['\x7d']) ++ rest) =
          Json.deepest .outside (opened + 1) (t ++ '\x7d' :: rest) := by
        simp [Json.deepest]
      have each : ∀ m ∈ members, ∀ u, MemberText (TextOf numbers) m u → ∀ opened rest,
          Json.deepest .outside opened (u ++ rest) =
            max (opened + m.2.nesting) (Json.deepest .outside opened rest) := by
        intro m mem u here opened rest
        obtain @⟨name, j, nameText, gap, gap', u, named, blanks, behind, here⟩ := here
        have colon : Json.deepest .outside opened (':' :: (gap' ++ (u ++ rest))) =
            Json.deepest .outside opened (gap' ++ (u ++ rest)) := by
          simp [Json.deepest]
        simp only [List.append_assoc, List.cons_append]
        rw [named.deepest, blanks.deepest, colon, behind.deepest, ih _ mem here]
      rw [opens, listed.deepest each, deepest_close (.inr rfl), nesting, membersNesting_eq]
      omega

/-! ## One value for each text -/

/-- A string has its own texts. -/
theorem StringText.unique {s s' : String} {u v rest rest' : List Char} (text : StringText s u)
    (text' : StringText s' v) (same : u ++ rest = v ++ rest') : s = s' ∧ rest = rest' := by
  obtain ⟨spells⟩ := text
  obtain ⟨spells'⟩ := text'
  simp only [List.cons_append, List.append_assoc, List.nil_append] at same
  have reads := spells.read rest
  rw [(List.cons.inj same).2, spells'.read rest'] at reads
  exact ⟨(congrArg Prod.fst (Except.ok.inj reads)).symm,
    (congrArg Prod.snd (Except.ok.inj reads)).symm⟩

/-- The character that values of a sort begin with. One digit stands for all that begin numbers. -/
def mark : Json → Char
  | .null => 'n'
  | .bool true => 't'
  | .bool false => 'f'
  | .number _ => '0'
  | .string _ => '"'
  | .array _ => '['
  | .object _ => '\x7b'

/-- The sort of value that begins with a character. -/
def markOf (c : Char) : Char := if c = '-' ∨ c.isDigit then '0' else c

theorem TextOf.mark (numerals : AreNumerals numbers) (text : TextOf numbers j t) :
    ∃ c u, t = c :: u ∧ markOf c = j.mark := by
  cases text with
  | null => exact ⟨'n', "ull".toList, rfl, rfl⟩
  | yes => exact ⟨'t', "rue".toList, rfl, rfl⟩
  | no => exact ⟨'f', "alse".toList, rfl, rfl⟩
  | number here =>
    obtain ⟨c, u, rfl, start⟩ := numerals.start here
    exact ⟨c, u, rfl, if_pos start⟩
  | string here =>
    obtain ⟨_⟩ := here
    exact ⟨'"', _, rfl, rfl⟩
  | array _ => exact ⟨'[', _, rfl, rfl⟩
  | object _ => exact ⟨'\x7b', _, rfl, rfl⟩

/-- Texts that begin alike are texts of values of one sort. -/
theorem TextOf.mark_eq {k : Json} {u rest rest' : List Char} (numerals : AreNumerals numbers)
    (text : TextOf numbers j t) (text' : TextOf numbers k u) (same : t ++ rest = u ++ rest') :
    j.mark = k.mark := by
  obtain ⟨c, v, rfl, eq⟩ := text.mark numerals
  obtain ⟨d, w, rfl, eq'⟩ := text'.mark numerals
  have front : c = d := (List.cons.inj same).1
  rw [← eq, ← eq', front]

theorem MemberText.unique {text : Json → List Char → Prop} {m : String × Json}
    (begins : ∀ j u, text j u → BeginsValue u) (value : OneText text m.2) :
    OneText (MemberText text) m := by
  rintro _ m' _ rest rest' ⟨named, blanks, behind, here⟩ ⟨named', blanks', behind', here'⟩ ends
    ends' same
  simp only [List.append_assoc, List.cons_append] at same
  obtain ⟨rfl, same⟩ := named.unique named' same
  have values := (List.cons.inj (blanks.append_inj blanks' rfl rfl same)).2
  have values := behind.append_inj behind' ((begins _ _ here).append _).dropWhile
    ((begins _ _ here').append _).dropWhile values
  obtain ⟨rfl, rfl⟩ := value here here' ends ends' values
  exact ⟨rfl, rfl⟩

/-- **A text is a text of one value only**, if that is so for numbers. -/
theorem TextOf.unique (numerals : AreNumerals numbers) (each : ∀ n, OneText numbers n) (j : Json) :
    OneText (TextOf numbers) j := by
  have begins : ∀ j u, TextOf numbers j u → BeginsValue u :=
    fun _ _ text => text.beginsValue numerals
  induction j using induct with
  | null =>
    intro u k v rest rest' text text' ends ends' same
    have mark := text.mark_eq numerals text' same
    cases text
    cases text' with
    | null => exact ⟨rfl, List.append_cancel_left same⟩
    | _ => simp [Json.mark] at mark
  | bool b =>
    intro u k v rest rest' text text' ends ends' same
    have mark := text.mark_eq numerals text' same
    cases text with
    | yes =>
      cases text' with
      | yes => exact ⟨rfl, List.append_cancel_left same⟩
      | _ => simp [Json.mark] at mark
    | no =>
      cases text' with
      | no => exact ⟨rfl, List.append_cancel_left same⟩
      | _ => simp [Json.mark] at mark
  | number n =>
    intro u k v rest rest' text text' ends ends' same
    have mark := text.mark_eq numerals text' same
    cases text with
    | number here =>
      cases text' with
      | number here' =>
        obtain ⟨rfl, rfl⟩ := each n here here' ends ends' same
        exact ⟨rfl, rfl⟩
      | _ => simp [Json.mark] at mark
  | string s =>
    intro u k v rest rest' text text' ends ends' same
    have mark := text.mark_eq numerals text' same
    cases text with
    | string here =>
      cases text' with
      | string here' =>
        obtain ⟨rfl, rfl⟩ := here.unique here' same
        exact ⟨rfl, rfl⟩
      | _ => simp [Json.mark] at mark
  | array items ih =>
    intro u k v rest rest' text text' ends ends' same
    have mark := text.mark_eq numerals text' same
    cases text with
    | array listed =>
      cases text' with
      | array listed' =>
        simp only [List.cons_append, List.append_assoc, List.nil_append] at same
        obtain ⟨rfl, rfl⟩ := listed.unique (.inl rfl) begins ih listed' (List.cons.inj same).2
        exact ⟨rfl, rfl⟩
      | _ => simp [Json.mark] at mark
  | object members ih =>
    intro u k v rest rest' text text' ends ends' same
    have mark := text.mark_eq numerals text' same
    cases text with
    | object listed =>
      cases text' with
      | object listed' =>
        simp only [List.cons_append, List.append_assoc, List.nil_append] at same
        obtain ⟨rfl, rfl⟩ := listed.unique (.inr rfl) (fun _ _ here => here.beginsValue)
          (fun m mem => MemberText.unique begins (ih m mem)) listed' (List.cons.inj same).2
        exact ⟨rfl, rfl⟩
      | _ => simp [Json.mark] at mark

/-! ## Whole texts -/

/-- The text spells the value, maybe between blanks. -/
inductive SpelledIn (j : Json) (text : String) : Prop where
  | mk {gap t gap' : List Char} : Blanks gap → j.SpelledBy t → Blanks gap' →
      text.toList = gap ++ (t ++ gap') → SpelledIn j text

/-- A text of a value is nested as deeply as the value. -/
theorem SpelledIn.textNesting {j : Json} {text : String} (spelled : j.SpelledIn text) :
    textNesting text = j.nesting := by
  obtain @⟨gap, t, gap', blanks, here, behind, chars⟩ := spelled
  have whole := behind.deepest 0 []
  rw [List.append_nil] at whole
  rw [Json.textNesting, chars, blanks.deepest, here.deepest areNumerals_spelledBy.parts, whole]
  simp [Json.deepest]

/-- The reader takes the value that a text spells, up to the depth that it has room for. -/
theorem SpelledIn.read {j : Json} {text : String} (spelled : j.SpelledIn text) :
    ∃ rest, Blanks rest ∧
      ∀ room, (Json.read room).run text.toList = (within j.nesting room j).map (·, rest) := by
  obtain @⟨gap, t, gap', blanks, here, behind, chars⟩ := spelled
  have ends : Numeral.Ends gap' := by
    simpa using behind.ends Numeral.ends_nil
  have back : ReadBack Number.SpelledBy := fun _ _ spelled _ ends => spelled.read ends
  refine ⟨gap', behind, fun room => ?_⟩
  rw [chars, read_blanks blanks, here.read areNumerals_spelledBy back room gap' ends]

end ShortForm.Json
