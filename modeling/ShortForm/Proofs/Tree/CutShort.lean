import ShortForm.Proofs.Json.CutNumber
import ShortForm.Proofs.Json.CutValue
import ShortForm.Proofs.Tree.RoundTrip

/-!
# Trees that are cut short

The text that is written for a node is settled (`Node.settled_write`): what is read of it does not
depend on what stands behind it, and of whatever is cut off its end the reader only says that the
text ends too early. So if the text is read at all, it is told from every text with less of it and
from every text with more behind it (`Node.ofText_cutShort`).
-/

namespace ShortForm

open Reader Json

variable {j : Json} {t : List Char}

/-- The texts that are written for numbers of trees are settled. -/
theorem Json.Written.settled {n : Number} (written : Written Number.IsBounded n t) :
    Number.read.Settled (fun _ => True) t := by
  obtain ⟨rfl, bounded⟩ := written
  exact bounded.settled

theorem Json.areNumerals_bounded : AreNumerals (Written Number.IsBounded) :=
  areNumerals_written fun bounded => (Number.spelledBy_write bounded.isFinite).start

/-! ## Parts of a node -/

/-- A value is read to its end before it is recognised, so the text ends too early first. A number
is always recognised. -/
theorem Value.settled_readWithin (text : TextOf (Written Number.IsBounded) j t) (room : Nat) :
    (Value.readWithin room).Settled (fun _ => True) t := by
  refine (text.settled areNumerals_bounded (fun _ _ => Written.settled) room).finish
    (fun j => ?_) ?_
  · cases ofJson? j with
    | none => exact .inr ⟨_, rfl⟩
    | some v => exact .inl ⟨v, rfl⟩
  · rintro _ ⟨n, rfl⟩
    exact ⟨.ofNumber n, rfl, trivial⟩

/-- The kind is whole with the closing quote of its tag. -/
theorem Kind.settled_read {tag : String} (text : StringText tag t) :
    Kind.read.Settled (fun _ => True) t := by
  obtain ⟨spells⟩ := text
  have opens (s : List Char) : readString.run ('"' :: s) = stringRest.run s := by
    simp [readString, isBlank]
  exact Settled.map ⟨_, .cons (.early rfl) opens (stringRest_settles spells)⟩ ofTag
    fun _ => False.elim

/-- The word that a number is, or the fault that it is none. -/
def Json.askWord (n : Number) : Reader UInt32 :=
  match n.word?, n with
  | some w, _ => pure w
  | none, .int n => fail (.outOfRange n .word)
  | none, .float x => fail (.wrongType (.number (.float x)) .word)

theorem Json.readWord_number {c : Char} (start : c = '-' ∨ c.isDigit) (s : List Char) :
    readWord.run (c :: s) = (Number.read >>= askWord).run (c :: s) := by
  simp only [readWord, run_bind, run_blanks, run_peek, Numeral.isBlank_of_start start, start,
    List.dropWhile_cons_of_neg, Bool.false_eq_true, not_false_eq_true, List.head?_cons,
    Option.some.injEq, Option.any_some, if_true]
  rfl

/-- Of a word that is cut short a word is left. -/
theorem Json.settled_readWord (w : UInt32) :
    readWord.Settled (fun _ => True) (Number.int w.toNat).write := by
  have word : (Number.read >>= askWord).Settled (fun _ => True) (Number.int w.toNat).write := by
    refine (Number.settled_word w).finish (fun n => ?_) fun n isSome => ?_
    · unfold askWord
      split
      · exact .inl ⟨_, rfl⟩
      · exact .inr ⟨_, rfl⟩
      · exact .inr ⟨_, rfl⟩
    · obtain ⟨w, eq⟩ := Option.isSome_iff_exists.mp isSome
      exact ⟨w, by simp only [askWord, eq], trivial⟩
  obtain ⟨c, t, text, start⟩ := (Numeral.spelledBy_ofInt w.toNat).start
  rw [text] at word ⊢
  exact .begins (.early rfl) (readWord_number start) word

namespace Node

/-- Children are read as values, one by one. -/
theorem settled_readChild {m : String × Json}
    (here : MemberText (TextOf (Written Number.IsBounded)) m t) (children : Named Value) :
    (memberName stringRest >>= readChild children).Settled (fun _ => True) t := by
  have member_eq : readChild children m.1 = colon >>= fun _ =>
      Value.readWithin childRoom >>= fun v => pure (children.put m.1 v) := rfl
  have drops : DropsBlanks (Value.readWithin childRoom) := (dropsBlanks_read childRoom).bind _
  have early : RunsOut (fun _ => False) ((Value.readWithin childRoom).run []) :=
    (@read_early (fun _ => False) childRoom).bind fun _ => False.elim
  exact here.settled member_eq (drops.bind _) (early.bind (fun _ => False.elim)) fun u here =>
    (Value.settled_readWithin here childRoom).map (children.put m.1) fun _ _ => trivial

theorem settled_readChildren {members : List (String × Json)}
    (text : TextOf (Written Number.IsBounded) (.object members) t) :
    readChildren.Settled (fun _ => False) t := by
  cases text with
  | @object _ t listed =>
    have opens (s : List Char) : readChildren.run ('\x7b' :: s) =
        (objectRest (refuseClosing '\x7d') stringRest readChild []).run s := by
      simp [readChildren, isBlank]
    exact .cons (.early rfl) opens (listed.settled (readsBracketed_object stringRest readChild)
      (fun m _ u here => ⟨here.beginsValue, settled_readChild here⟩) [])

/-- The JSON value can be written for the field. -/
inductive WrittenField : Field → Json → Prop where
  | kind (tag : String) : WrittenField .kind (.string tag)
  | flags (w : UInt32) : WrittenField .flags (ofWord w)
  | line (w : UInt32) : WrittenField .line (ofWord w)
  | children (members : List (String × Json)) : WrittenField .children (.object members)

variable {field : Field}

theorem settled_readField (written : WrittenField field j)
    (text : TextOf (Written Number.IsBounded) j t) (fields : Fields) :
    (readField fields field).Settled (fun _ => True) t := by
  cases written with
  | kind tag =>
    cases text with
    | string here =>
      exact (Kind.settled_read here).map _ fun _ _ => trivial
  | flags w | line w =>
    cases text with
    | number here =>
      obtain ⟨rfl, _⟩ := here
      exact (settled_readWord w).map _ fun _ _ => trivial
  | children members =>
    exact (settled_readChildren text).map _ fun _ => False.elim

theorem dropsBlanks_readField (fields : Fields) (field : Field) :
    DropsBlanks (readField fields field) := by
  cases field with
  | kind => exact ((dropsBlanks_of_blanks _).bind _).bind _
  | flags | line | children => exact (dropsBlanks_of_blanks _).bind _

theorem readField_early (fields : Fields) (field : Field) :
    RunsOut (fun _ => True) ((readField fields field).run []) := by
  cases field <;> exact .early rfl

/-- A field is read behind its name, unless it is there already. -/
theorem settled_readMember (written : WrittenField field j)
    (here : MemberText (TextOf (Written Number.IsBounded)) (field.name, j) t) (fields : Fields) :
    (memberName stringRest >>= readMember fields).Settled (fun _ => True) t := by
  by_cases again : fields.has field
  · obtain ⟨named, _, _, _⟩ := here
    have fails : readMember fields field.name = fail (.duplicateField field.name) := by
      simp only [readMember, Field.ofName?_name, again, if_true]
    exact ⟨_, named.memberName_settles.bind (fun _ => False.elim)
      (by rw [fails]; exact .error fun _ _ => rfl)⟩
  · have member_eq : readMember fields field.name = colon >>= fun _ => readField fields field := by
      simp [readMember, Field.ofName?_name, again]
    exact here.settled member_eq (dropsBlanks_readField fields field) (readField_early fields field)
      fun u text => settled_readField written text fields

/-! ## Nodes -/

/-- The members of a written node are its fields. -/
theorem writtenField_of_mem {kind : Kind} {flags line : UInt32} {members : List (String × Json)}
    {m : String × Json} (mem : m ∈ [(Field.kind.name, .string kind.tag),
      (Field.flags.name, ofWord flags), (Field.line.name, ofWord line),
      (Field.children.name, .object members)]) :
    ∃ field, m.1 = field.name ∧ WrittenField field m.2 := by
  simp only [List.mem_cons, List.not_mem_nil, or_false] at mem
  rcases mem with rfl | rfl | rfl | rfl
  · exact ⟨.kind, rfl, .kind _⟩
  · exact ⟨.flags, rfl, .flags _⟩
  · exact ⟨.line, rfl, .line _⟩
  · exact ⟨.children, rfl, .children _⟩

/-- **The text of a node is settled**, and nothing could go on behind it. -/
theorem settled_write (n : Node) : Node.read.Settled (fun _ => False) n.toJson.write := by
  have text : TextOf (Written Number.IsBounded) n.toJson n.toJson.write :=
    (n.eachNumber_toJson (fun _ low high => ⟨low, high⟩) fun _ _ finite => finite).textOf
  generalize n.toJson.write = t at text
  obtain ⟨kind, flags, line, children⟩ := n
  rw [toJson] at text
  cases text with
  | @object _ t listed =>
    have members : (objectRest (refuseClosing '\x7d') stringRest readMember {}).Settled
        (fun _ => False) (t ++ ['\x7d']) := by
      refine listed.settled (readsBracketed_object stringRest readMember)
        (fun m mem u here => ?_) {}
      obtain ⟨name, j⟩ := m
      obtain ⟨field, rfl, written⟩ := writtenField_of_mem mem
      exact ⟨here.beginsValue, settled_readMember written here⟩
    have node : readMembers.Settled (fun _ => False) (t ++ ['\x7d']) := by
      rw [readMembers]
      refine members.finish (fun fields => ?_) fun _ never => never.elim
      cases fields.node? with
      | none => exact .inr ⟨_, rfl⟩
      | some n => exact .inl ⟨n, rfl⟩
    exact .cons (.early rfl) (fun s => by simp [Node.read, isBlank]) node

end Node

/-! ## Whole texts -/

namespace Reader

variable {α : Type} {p : Reader α} {text : String} {a : α}

/-- If a settled text is read as a whole, that is what it settles. -/
theorem Settled.settles_of_readAll (settled : p.Settled (fun _ => False) text.toList)
    (reads : p.readAll text = .ok a) : p.Settles (fun _ => False) text.toList (.ok a) := by
  obtain ⟨outcome, settles⟩ := settled
  obtain ⟨rest, run, _⟩ := readAll_eq_ok reads
  have whole := settles.run [] fun _ => False.elim
  rw [List.append_nil, run] at whole
  cases outcome with
  | error fault => cases whole
  | ok b =>
    cases whole
    exact settles

/-- Of a front part the reader says that it ends too early. -/
theorem Settles.readAll_front (settles : p.Settles (fun _ => False) text.toList (.ok a))
    {front back : String} (eq : text = front ++ back) (some : back ≠ "") :
    ∃ fault, p.readAll front = .error fault ∧ fault.kind = .ending := by
  have parts : text.toList = front.toList ++ back.toList := by rw [eq, String.toList_append]
  have nonempty : back.toList ≠ [] := fun none => some (String.toList_injective none)
  obtain ⟨fault, run, ending⟩ := (settles.cut a rfl _ _ parts nonempty).ending
  exact ⟨fault, by rw [readAll, run], ending⟩

/-- What stands behind the text is not looked at, but for blanks. -/
theorem Settles.readAll_append (settles : p.Settles (fun _ => False) text.toList (.ok a))
    (back : String) : p.readAll (text ++ back) =
      if back.toList.all isBlank then .ok a else .error .trailingText := by
  rw [readAll, String.toList_append, settles.run back.toList (fun _ => False.elim)]
  rfl

end Reader

/-- **Too little and too much are always told apart.** If the text of a node is read at all, then of
every text that is cut off before its end it is said that it ends too early, and nothing else;
blanks behind the text change nothing; and of anything else behind it, that it is too much. -/
theorem Node.ofText_cutShort {n m : Node} (reads : Node.ofText n.text = .ok m) :
    (∀ front back, n.text = front ++ back → back ≠ "" →
        ∃ fault, Node.ofText front = .error (.malformed fault) ∧ fault.kind = .ending) ∧
      (∀ back : String, (∀ c ∈ back.toList, isBlank c) → Node.ofText (n.text ++ back) = .ok m) ∧
      (∀ back : String, (∃ c ∈ back.toList, ¬ isBlank c) →
        Node.ofText (n.text ++ back) = .error (.malformed .trailingText)) ∧
      Fault.trailingText.message = "trailing characters" := by
  have settled : Node.read.Settled (fun _ => False) n.text.toList := by
    rw [Node.text, Json.text, String.toList_ofList]
    exact n.settled_write
  have whole : Node.read.readAll n.text = .ok m := by
    rw [ofText] at reads
    cases eq : Node.read.readAll n.text with
    | error fault =>
      rw [eq] at reads
      cases reads
    | ok k =>
      rw [eq] at reads
      cases reads
      rfl
  have settles := settled.settles_of_readAll whole
  refine ⟨fun front back eq some => ?_, fun back blank => ?_, fun back some => ?_, rfl⟩
  · obtain ⟨fault, error, ending⟩ := settles.readAll_front eq some
    exact ⟨fault, by rw [ofText, error]; rfl, ending⟩
  · rw [ofText, settles.readAll_append, if_pos (List.all_eq_true.mpr blank)]
    rfl
  · obtain ⟨c, mem, solid⟩ := some
    have other : ¬ back.toList.all isBlank := fun all => solid (List.all_eq_true.mp all c mem)
    rw [ofText, settles.readAll_append, if_neg other]
    rfl

/-- An exponent that lacks a digit is an exponent still, but the text that it stands in ends too
early. -/
theorem Node.ofText_cutShort_arrayElem :
    let element : Node := .arrayElem (.float ⟨0x7E41EB2D66005835⟩) (some (.string "a\n"))
    let front := "\x7b\"kind\":\"AST_ARRAY_ELEM\",\"flags\":0,\"lineno\":0," ++
      "\"children\":\x7b\"value\":1.5e+30"
    ∃ m, Node.ofText element.text = .ok m ∧
      element.text = front ++ "0,\"key\":\"a\\n\"\x7d\x7d" ∧
      (∃ fault, Node.ofText front = .error (.malformed fault) ∧ fault.kind = .ending) ∧
      Node.ofText (element.text ++ "\n ") = .ok m ∧
      Node.ofText (element.text ++ " 0") = .error (.malformed .trailingText) := by
  intro element front
  have text : element.text = front ++ "0,\"key\":\"a\\n\"\x7d\x7d" := by decide +kernel
  have succeeds : (Node.ofText element.text).isOk = true := by
    rw [text]
    decide +kernel
  cases reads : Node.ofText element.text with
  | error e =>
    rw [reads] at succeeds
    cases succeeds
  | ok m =>
    obtain ⟨cut, blank, more, _⟩ := ofText_cutShort reads
    exact ⟨m, rfl, text, cut _ _ text (by decide), blank _ (by simp [isBlank]),
      more _ ⟨'0', by simp, by simp [isBlank]⟩⟩

end ShortForm
