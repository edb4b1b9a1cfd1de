import ShortForm.Proofs.Json.CutShort

/-!
# Values that are cut short

A text of a value is settled if the texts of its numbers are (`TextOf.settled`). Only a number could
go on: a string, a word and what stands between brackets are told to be whole by their last
character.
-/

namespace ShortForm.Json

open Reader

variable {t u : List Char}

/-! ## Words -/

/-- A word is whole with its last letter. -/
theorem word_settles (cs : List Char) : (word cs).Settles (fun _ => False) cs (.ok ()) := by
  induction cs with
  | nil => exact .pure ()
  | cons c cs ih => exact .cons (.early rfl) (fun s => by simp [word]) ih

/-! ## Strings -/

/-- A hexadecimal digit is one byte long. -/
theorem utf8Size_of_hexDigit? {c : Char} {d : Nat} (digit : hexDigit? c = some d) :
    c.utf8Size = 1 := by
  have ascii : c.toNat ≤ 102 := by
    unfold hexDigit? at digit
    split at digit
    · rename_i isDigit
      exact Nat.le_trans (Char.isDigit_iff_toNat.mp isDigit).2 (by decide)
    split at digit
    · rename_i letter
      exact letter.2
    split at digit
    · rename_i letter
      exact Nat.le_trans letter.2 (by decide)
    · cases digit
  rw [Char.utf8Size_eq_one_iff]
  exact Nat.le_trans ascii (by decide)

theorem byteLength_eq {cs : List Char} (ascii : ∀ c ∈ cs, c.utf8Size = 1) :
    byteLength cs = cs.length := by
  induction cs with
  | nil => rfl
  | cons c cs ih =>
    have here := ascii c List.mem_cons_self
    have later := ih fun d mem => ascii d (List.mem_cons_of_mem c mem)
    simp only [byteLength, String.ofList_cons, String.utf8ByteSize_append,
      String.utf8ByteSize_singleton, List.length_cons] at later ⊢
    omega

/-- Four digits are whole with the last one: there is no room for them in what is cut short. -/
theorem HexUnit.settles {n : Nat} (unit : HexUnit n t) :
    hexUnit.Settles (fun _ => False) t (.ok n) where
  run rest _ := unit.read rest
  cut := by
    rintro _ _ front back rfl nonempty
    have short : front.length < 4 ∧ ∀ c ∈ front, c.utf8Size = 1 := by
      unfold HexUnit Json.hexFront? at unit
      split at unit
      · rename_i a b c d more same
        split at unit
        · rename_i first second third fourth
          obtain ⟨_, rfl⟩ := Prod.mk.inj (Option.some.inj unit)
          have length := congrArg List.length same
          have some := List.length_pos_iff.mpr nonempty
          simp only [List.length_append, List.length_cons, List.length_nil] at length
          refine ⟨by omega, fun e mem => ?_⟩
          have among : e ∈ [a, b, c, d] := same ▸ List.mem_append_left back mem
          simp only [List.mem_cons, List.not_mem_nil, or_false] at among
          rcases among with rfl | rfl | rfl | rfl
          all_goals exact utf8Size_of_hexDigit? ‹_›
        · cases unit
      · cases unit
    have none : Json.hexFront? front = none := by
      unfold Json.hexFront?
      split
      · have long := short.1
        simp only [List.length_cons] at long
        omega
      · rfl
    simp only [hexUnit, none, byteLength_eq short.2, short.1, if_true]
    exact .early rfl

theorem pairMark_settles (c : Char) : (pairMark c).Settles (fun _ => False) [c] (.ok ()) :=
  .cons (.early rfl) (fun s => by simp [pairMark]) (.pure ())

/-- The text behind `u` is whole with its last digit. -/
theorem SpellsUnit.settles {c : Char} (spells : SpellsUnit c t) :
    unicodeEscape.Settles (fun _ => False) t (.ok c) := by
  cases spells with
  | single unit low high =>
    rw [← List.append_nil t]
    refine unit.settles.bind (fun _ => False.elim) ?_
    simpa [low, high] using Settles.pure _
  | @pair high low t u first second notLow isHigh isLow =>
    refine first.settles.bind (fun _ => False.elim) ?_
    rw [if_neg (by simp [notLow]), if_pos isHigh]
    refine (pairMark_settles '\\').bind (t := ['\\']) (fun _ => False.elim) ?_
    refine (pairMark_settles 'u').bind (t := ['u']) (fun _ => False.elim) ?_
    rw [← List.append_nil u]
    refine second.settles.bind (fun _ => False.elim) ?_
    simpa [isLow] using Settles.pure _

/-- What stands for a character is whole with its last one. -/
theorem SpellsChar.cutShort {c : Char} (spells : SpellsChar c t) (taken : List Char) :
    (Json.insideFrom id unicodeEscape taken).CutShort (fun _ => False) t := by
  have early : RunsOut (fun _ => False) ((Json.insideFrom id unicodeEscape taken).run []) := by
    rw [insideFrom_nil]
    exact .early rfl
  cases spells with
  | plain quote backslash above =>
    exact .cons early (fun s => insideFrom_plain quote backslash above) .nil
  | @letter d _ letter =>
    refine .cons early (fun s => insideFrom_backslash) ?_
    have behind (s : List Char) : (escape id unicodeEscape >>= fun c =>
        Json.insideFrom id unicodeEscape (c :: taken)).run (d :: s) =
          (Json.insideFrom id unicodeEscape (c :: taken)).run s := by
      rw [run_bind, escape_letter letter]
      rfl
    exact .cons (.early rfl) behind .nil
  | unicode unit =>
    have unitCut : (unicodeEscape >>= fun c =>
        Json.insideFrom id unicodeEscape (c :: taken)).CutShort (fun _ => False) _ :=
      (unit.settles.cut c rfl).finish fun _ => False.elim
    refine .cons early (fun s => insideFrom_backslash) (.cons (.early rfl) (fun s => ?_) unitCut)
    rw [run_bind, escape_unicode]
    rfl

/-- The characters of a string are whole with the closing quote. -/
theorem SpellsInside.settles {cs : List Char} (spells : SpellsInside cs t) (taken : List Char) :
    (Json.insideFrom id unicodeEscape taken).Settles (fun _ => False) (t ++ ['"'])
      (.ok (taken.reverse ++ cs)) := by
  induction spells generalizing taken with
  | nil =>
    rw [List.append_nil]
    refine .cons (q := pure taken.reverse) ?_ (fun s => insideFrom_quote) (.pure taken.reverse)
    rw [insideFrom_nil]
    exact .early rfl
  | @cons c cs t more here _ ih =>
    rw [List.append_assoc]
    have later := ih (c :: taken)
    rw [List.reverse_cons, List.append_assoc] at later
    exact .append (here.cutShort taken) (fun s => here.insideFrom taken s) later

/-- The rest of a string is whole with the closing quote. -/
theorem stringRest_settles {s : String} (spells : SpellsInside s.toList t) :
    stringRest.Settles (fun _ => False) (t ++ ['"']) (.ok s) := by
  have chars : (inside id unicodeEscape).Settles (fun _ => False) (t ++ ['"']) (.ok s.toList) :=
    spells.settles []
  rw [← List.append_nil (t ++ ['"'])]
  refine chars.bind (fun _ => False.elim) ?_
  simpa using Settles.pure s

/-- A name is whole with the closing quote. -/
theorem StringText.memberName_settles {name : String} (text : StringText name t) :
    (Json.memberName stringRest).Settles (fun _ => False) t (.ok name) := by
  obtain ⟨spells⟩ := text
  exact .cons (.early rfl) (fun s => by simp [Json.memberName, isBlank]) (stringRest_settles spells)

/-! ## Values -/

/-- Only numbers could go on. -/
def IsNumber (j : Json) : Prop := ∃ n, j = .number n

theorem dropsBlanks_read (room : Nat) : DropsBlanks (read room) :=
  fun _ s blanks => read_blanks blanks room s

theorem read_early {goesOn : Json → Prop} (room : Nat) : RunsOut goesOn ((read room).run []) := by
  obtain ⟨list, object, eq⟩ := read_eq_readScalarOr room
  rw [eq, readScalarOr, valueBy_nil]
  exact .early rfl

/-- A text of a member is settled if its value is behind the colon. -/
theorem MemberText.settled {σ : Type} {text : Json → List Char → Prop} {m : String × Json}
    {member : String → Reader σ} {value : Reader σ}
    (member_eq : member m.1 = colon >>= fun _ => value) (drops : DropsBlanks value)
    (early : RunsOut (fun _ => True) (value.run []))
    (each : ∀ u, text m.2 u → value.Settled (fun _ => True) u) (here : MemberText text m t) :
    (Json.memberName stringRest >>= member).Settled (fun _ => True) t := by
  obtain @⟨name, j, nameText, gap, gap', u, named, blanks, behind, here⟩ := here
  obtain ⟨outcome, settles⟩ := settled_colon blanks (drops.settled early behind (each u here))
  rw [← member_eq] at settles
  exact ⟨outcome, named.memberName_settles.bind (fun _ => False.elim) settles⟩

/-- A word that stands for a value is whole with its last letter. -/
theorem settled_word (c : Char) (cs : List Char) (j : Json) {room : Nat}
    (begins : ∀ s, (read room).run (c :: s) = (word (c :: cs) >>= fun _ => pure j).run (c :: s)) :
    (read room).Settled IsNumber (c :: cs) := by
  have whole : (word (c :: cs) >>= fun _ => pure j).Settled IsNumber (c :: cs) :=
    Settled.map ⟨_, word_settles (c :: cs)⟩ (fun _ => j) fun _ => False.elim
  exact .begins (read_early room) begins whole

variable {numbers : Number → List Char → Prop} {j : Json}

/-- **A text of a value is settled** if the texts of its numbers are. -/
theorem TextOf.settled (numerals : AreNumerals numbers)
    (each : ∀ n t, numbers n t → Number.read.Settled (fun _ => True) t)
    (text : TextOf numbers j t) (room : Nat) : (Json.read room).Settled IsNumber t := by
  have early := @read_early IsNumber room
  induction j using induct generalizing t room with
  | null =>
    cases text
    obtain ⟨list, object, eq⟩ := read_eq_readScalarOr room
    exact settled_word 'n' ['u', 'l', 'l'] .null fun s => by rw [eq]; rfl
  | bool b =>
    obtain ⟨list, object, eq⟩ := read_eq_readScalarOr room
    cases text with
    | yes => exact settled_word 't' ['r', 'u', 'e'] (.bool true) fun s => by rw [eq]; rfl
    | no => exact settled_word 'f' ['a', 'l', 's', 'e'] (.bool false) fun s => by rw [eq]; rfl
  | number n =>
    obtain ⟨list, object, eq⟩ := read_eq_readScalarOr room
    cases text with
    | number here =>
      obtain ⟨c, u, rfl, start⟩ := numerals.start here
      have number : (Number.read >>= fun n => pure (Json.number n)).Settled IsNumber (c :: u) :=
        (each n _ here).map Json.number fun n _ => ⟨n, rfl⟩
      refine .begins early (fun s => ?_) number
      rw [eq, readScalarOr, valueBy_number _ _ _ _ _ _ _ start]
  | string s =>
    obtain ⟨list, object, eq⟩ := read_eq_readScalarOr room
    cases text with
    | string here =>
      obtain ⟨spells⟩ := here
      have string : (stringRest >>= fun s => pure (Json.string s)).Settled IsNumber _ :=
        Settled.map ⟨_, stringRest_settles spells⟩ Json.string fun _ => False.elim
      refine .cons early (fun s => ?_) string
      rw [eq, readScalarOr, valueBy_string]
  | array items ih =>
    cases text with
    | @array _ t listed =>
      cases room with
      | zero => exact .begins (q := fail .tooDeep) early (fun s => rfl) (.fail .tooDeep _)
      | succ room =>
        have items_settled : ∀ j ∈ items, SettledItem (TextOf numbers) (item (Json.read room)) j :=
          fun j mem u here => ⟨here.beginsValue numerals, fun before =>
            (ih j mem here room (read_early room)).map (· :: before) fun _ _ => trivial⟩
        have list : (arrayRest (Json.read room)).Settled IsNumber (t ++ [']']) :=
          (listed.settled (readsBracketed_list _) items_settled []).map _ fun _ => False.elim
        exact .cons early (fun s => rfl) list
  | object members ih =>
    cases text with
    | @object _ t listed =>
      cases room with
      | zero => exact .begins (q := fail .tooDeep) early (fun s => rfl) (.fail .tooDeep _)
      | succ room =>
        have members_settled : ∀ m ∈ members, SettledItem (MemberText (TextOf numbers))
            (fun before => Json.memberName stringRest >>= member (Json.read room) before) m := by
          refine fun m mem u here => ⟨here.beginsValue, fun before => ?_⟩
          have value (u : List Char) (here : TextOf numbers m.2 u) :
              (Json.read room >>= fun j => pure ((m.1, j) :: before)).Settled (fun _ => True) u :=
            (ih m mem here room (read_early room)).map _ fun _ _ => trivial
          have value_early := @read_early (fun _ => False) room
          exact here.settled rfl ((dropsBlanks_read room).bind _)
            (value_early.bind fun _ => False.elim) value
        have object : (membersRest (Json.read room)).Settled IsNumber (t ++ ['\x7d']) :=
          (listed.settled (readsBracketed_object stringRest _) members_settled []).map _
            fun _ => False.elim
        exact .cons early (fun s => rfl) object

end ShortForm.Json
