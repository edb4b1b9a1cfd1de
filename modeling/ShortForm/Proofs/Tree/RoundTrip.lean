import ShortForm.Proofs.Tree.Kept
import ShortForm.Tree.Build
import ShortForm.Tree.Read

/-!
# Trees read back

The text of a tree reads back as what writing keeps of the tree, up to the nesting that the reader
has room for; beyond it, the nesting is the fault (`ofText_text`). There are two readers. A value is
buffered as JSON and then recognised, so the law for it is the one of JSON followed by the one of
recognising (`Value.readWithin_write`). A node that is asked for is recognised while it is read, one
field after the other, so the law for it goes along the four members of its text
(`Node.read_write`); only the values of its children are buffered.

Doubles are read inexactly, and nothing is claimed of a double that does not read back on its own.
-/

namespace ShortForm

open Reader

/-- The double is read back, bit for bit, from its own text. -/
def Binary64.ReadsBack (x : Binary64) : Prop :=
  Value.ofText (Value.float x).text = .ok (.float x)

/-! ## Doubles where they stand -/

namespace Json

/-- A text of characters of a numeral can only be read as a number. -/
theorem number_of_read {room : Nat} {s rest : List Char} {j : Json}
    (parts : ∀ c ∈ s, Numeral.isPart c) (h : (read room).run s = .ok (j, rest)) :
    ∃ n, j = .number n ∧ Number.read.run s = .ok (n, rest) := by
  obtain ⟨list, object, eq⟩ := read_eq_readScalarOr room
  rw [eq, readScalarOr] at h
  cases s with
  | nil => cases h
  | cons c s =>
    by_cases start : c = '-' ∨ c.isDigit
    · rw [valueBy_number _ _ _ _ _ _ _ start] at h
      obtain ⟨n, middle, reads, last⟩ := run_bind_eq_ok.mp h
      simp only [run_pure, Except.ok.injEq, Prod.mk.injEq] at last
      obtain ⟨rfl, rfl⟩ := last
      exact ⟨n, rfl, reads⟩
    · have part := parts c List.mem_cons_self
      rw [not_or] at start
      simp only [Numeral.isPart, start, Bool.false_or, List.mem_cons, List.not_mem_nil, or_false,
        false_or, decide_eq_true_eq] at part
      rcases part with rfl | rfl | rfl | rfl <;> cases h

end Json

/-- A blank does not stand in a numeral. -/
theorem Numeral.isBlank_of_isPart {c : Char} (part : Numeral.isPart c) : isBlank c = false := by
  cases blank : isBlank c with
  | false => rfl
  | true =>
    simp only [isBlank, Bool.or_eq_true, decide_eq_true_eq] at blank
    rcases blank with ((rfl | rfl) | rfl) | rfl <;> exact absurd part (by decide)

/-- A numeral does not begin with a blank. -/
theorem Numeral.isBlank_of_start {c : Char} (start : c = '-' ∨ c.isDigit) : isBlank c = false := by
  refine isBlank_of_isPart ?_
  rcases start with rfl | digit
  · decide
  · exact isPart_of_isDigit digit

/-- What a whole text reads as. -/
theorem Reader.readAll_eq_ok {α : Type} {p : Reader α} {text : String} {a : α}
    (h : p.readAll text = .ok a) :
    ∃ rest, p.run text.toList = .ok (a, rest) ∧ ∀ c ∈ rest, isBlank c := by
  unfold readAll at h
  split at h
  · cases h
  · rename_i b rest eq
    split at h
    · rename_i blank
      cases h
      exact ⟨rest, eq, List.all_eq_true.mp blank⟩
    · cases h

/-- The text of a finite double is that of the number. -/
theorem Value.toList_text_float {x : Binary64} (finite : x.isFinite) :
    (Value.float x).text.toList = (Number.float x).write := by
  simp [Value.text, Value.toJson, finite, Json.text, Json.write]

/-- A double that reads back on its own reads back wherever it stands. -/
theorem Binary64.ReadsBack.legible {x : Binary64} (finite : x.isFinite) (back : x.ReadsBack) :
    (Number.float x).Legible := by
  intro rest ends
  have parts : ∀ c ∈ (Number.float x).write, Numeral.isPart c :=
    fun c mem => Number.isPart_of_mem_write mem
  have whole : Value.read.readAll (Value.float x).text = .ok (.float x) := by
    unfold ReadsBack Value.ofText at back
    cases eq : Value.read.readAll (Value.float x).text with
    | error fault => simp [eq, Except.mapError] at back
    | ok v => simpa [eq, Except.mapError] using back
  obtain ⟨behind, run, blank⟩ := readAll_eq_ok whole
  obtain ⟨j, middle, reads, tree⟩ := run_bind_eq_ok.mp run
  rw [Value.toList_text_float finite] at reads
  obtain ⟨n, rfl, number⟩ := Json.number_of_read parts reads
  have shape : Value.ofNumber n = .float x ∧ middle = behind := by
    simpa [Value.ofJson?] using tree
  obtain ⟨shape, rfl⟩ := shape
  obtain ⟨t, eq, spelled⟩ := Number.read_takes number
  -- What is left is blank and a part of a numeral, so nothing is.
  have nothing : middle = [] := by
    apply List.eq_nil_iff_forall_not_mem.mpr
    intro c mem
    have solid := Numeral.isBlank_of_isPart (parts c (eq ▸ List.mem_append_right t mem))
    simp [blank c mem] at solid
  subst nothing
  rw [List.append_nil] at eq
  subst eq
  -- A whole number would have been written without a mark.
  cases n with
  | float y =>
    obtain rfl : y = x := Value.float.inj shape
    exact spelled.read ends
  | int n =>
    rcases Binary64.mark_mem_decimal Number.floatStyle x with mark | mark <;>
      exact absurd (spelled.isDigit_of_int _ mark) (by decide)

/-- A text that is read as a number to its end holds what the number is. -/
theorem Value.ofText_number {text : String} {n : Number}
    (reads : Number.read.run text.toList = .ok (n, [])) :
    Value.ofText text = .ok (Value.ofNumber n) := by
  obtain ⟨c, t, eq, start⟩ := Number.start_of_read reads
  have value : (Json.read Json.maxDepth).run text.toList = .ok (.number n, []) := by
    rw [eq] at reads
    rw [eq, Json.maxDepth, Json.read, Json.readScalarOr, Json.valueBy_number _ _ _ _ _ _ _ start,
      run_bind, reads]
    rfl
  rw [Value.ofText_eq, value]
  rfl

/-- A double that the reader of numbers takes back reads back. -/
theorem Binary64.readsBack_of_read {x : Binary64} (finite : x.isFinite)
    (reads : Number.read.run (Number.float x).write = .ok (.float x, [])) : x.ReadsBack := by
  rw [← Value.toList_text_float finite] at reads
  exact Value.ofText_number reads

/-- The property holds of every whole number that a word holds, signed or unsigned. -/
def Number.HoldsOfWords (holds : Number → Prop) : Prop :=
  ∀ n : Int, -0x8000000000000000 ≤ n → n < 0x10000000000000000 → holds (.int n)

section Numbers

variable {holds : Number → Prop}

mutual

/-- The numbers of a written node have a property if its finite doubles and whole numbers do. -/
theorem Node.eachNumber_toJson (words : Number.HoldsOfWords holds) : (n : Node) →
    (∀ x ∈ n.floats, x.isFinite → holds (.float x)) → n.toJson.EachNumber holds
  | ⟨kind, flags, line, children⟩, floats => by
    have word : ∀ w : UInt32, (Json.ofWord w).EachNumber holds := by
      intro w
      refine .number (words w.toNat ?_ ?_)
      all_goals have := w.toNat_lt; omega
    apply Json.EachNumber.object
    intro m mem
    simp only [List.mem_cons, List.not_mem_nil, or_false] at mem
    rcases mem with rfl | rfl | rfl | rfl
    · exact .string _
    · exact word _
    · exact word _
    · exact .object (eachNumber_childrenToJson words children floats)

/-- The numbers of a written value have a property if its finite doubles and whole numbers do. -/
theorem Value.eachNumber_toJson (words : Number.HoldsOfWords holds) : (v : Value) →
    (∀ x ∈ v.floats, x.isFinite → holds (.float x)) → v.toJson.EachNumber holds
  | .null, _ => .null
  | .bool b, _ => .bool b
  | .int n, _ => by
    refine .number (words n.toInt n.le_toInt ?_)
    have := n.toInt_lt
    omega
  | .float x, floats => by
    rw [Value.toJson]
    split
    · rename_i finite
      exact .number (floats x List.mem_cons_self finite)
    · exact .null
  | .string s, _ => .string s
  | .node n, floats => Node.eachNumber_toJson words n floats
  | .list slots, floats => .array (eachNumber_slotsToJson words slots floats)

theorem eachNumber_childrenToJson (words : Number.HoldsOfWords holds) :
    (children : List (String × Value)) →
    (∀ x ∈ childrenFloats children, x.isFinite → holds (.float x)) →
    ∀ m ∈ childrenToJson children, m.2.EachNumber holds
  | [], _, m, mem => by simp [childrenToJson] at mem
  | (name, value) :: rest, floats, m, mem => by
    simp only [childrenFloats, List.mem_append] at floats
    rcases List.mem_cons.mp mem with rfl | mem
    · exact Value.eachNumber_toJson words value fun x here => floats x (.inl here)
    · exact eachNumber_childrenToJson words rest (fun x later => floats x (.inr later)) m mem

theorem eachNumber_slotsToJson (words : Number.HoldsOfWords holds) :
    (slots : List (Option Node)) →
    (∀ x ∈ slotsFloats slots, x.isFinite → holds (.float x)) →
    ∀ j ∈ slotsToJson slots, j.EachNumber holds
  | [], _, j, mem => by simp [slotsToJson] at mem
  | none :: rest, floats, j, mem => by
    rcases List.mem_cons.mp mem with rfl | mem
    · exact .null
    · exact eachNumber_slotsToJson words rest floats j mem
  | some n :: rest, floats, j, mem => by
    simp only [slotsFloats, List.mem_append] at floats
    rcases List.mem_cons.mp mem with rfl | mem
    · exact Node.eachNumber_toJson words n fun x here => floats x (.inl here)
    · exact eachNumber_slotsToJson words rest (fun x later => floats x (.inr later)) j mem

end

end Numbers

theorem Number.holdsOfWords_legible : HoldsOfWords Legible :=
  fun _ low high _ ends => read_write_int ends low high

/-- The JSON value of a node reads back if its doubles do. -/
theorem Node.legible_toJson (n : Node)
    (floats : ∀ x ∈ n.floats, x.isFinite → (Number.float x).Legible) : n.toJson.Legible :=
  n.eachNumber_toJson Number.holdsOfWords_legible floats

/-- The JSON value of a value reads back if its doubles do. -/
theorem Value.legible_toJson (v : Value)
    (floats : ∀ x ∈ v.floats, x.isFinite → (Number.float x).Legible) : v.toJson.Legible :=
  v.eachNumber_toJson Number.holdsOfWords_legible floats

/-! ## Values -/

/-- The value that a JSON value is, or the fault that it is none. -/
def Value.recognise (j : Json) : Except Fault Value :=
  match Value.ofJson? j with
  | some v => .ok v
  | none => .error .noShape

theorem Value.recognise_toJson {v : Value} (distinct : v.NamesDistinct) :
    Value.recognise v.toJson = .ok v.kept := by
  rw [recognise, Value.ofJson?_toJson v distinct]

/-- A value is read as JSON is, and then recognised. -/
theorem Value.readWithin_write {j : Json} (legible : j.Legible) (room : Nat) (rest : List Char)
    (ends : Numeral.Ends rest) :
    (Value.readWithin room).run (j.write ++ rest) =
      (Json.within j.nesting room j >>= Value.recognise).map (·, rest) := by
  rw [readWithin, run_bind, Json.read_write legible room rest ends]
  rcases Nat.lt_or_ge room j.nesting with deep | fits
  · rw [Json.within_of_lt deep]
    rfl
  · rw [Json.within_of_le fits]
    simp only [Except.map, bind, Except.bind, recognise]
    cases Value.ofJson? j with
    | none => rfl
    | some v => rfl

/-! ## Nodes, field by field -/

namespace Node

variable {rest : List Char}

theorem readString_run (s : String) (rest : List Char) :
    Json.readString.run (Json.writeString s ++ rest) = .ok (s, rest) := by
  rw [Json.writeString_append]
  simp [Json.readString, isBlank, Json.stringRest_run]

/-- A number that is a word is read as that word. -/
theorem readWord_of_read {n : Number} {w : UInt32} {c : Char} {t : List Char}
    (start : c = '-' ∨ c.isDigit) (reads : Number.read.run (c :: t) = .ok (n, rest))
    (word : n.word? = some w) : Json.readWord.run (c :: t) = .ok (w, rest) := by
  have solid := Numeral.isBlank_of_start start
  simp [Json.readWord, solid, start, reads, word]

theorem readWord_run (w : UInt32) (ends : Numeral.Ends rest) :
    Json.readWord.run ((Json.ofWord w).write ++ rest) = .ok (w, rest) := by
  have legible : (Number.int w.toNat).Legible := by
    refine fun rest ends => Number.read_write_int ends ?_ ?_
    all_goals have := w.toNat_lt; omega
  have word := Json.word?_ofWord w
  obtain ⟨c, t, text, start⟩ := legible.start
  have reads := legible rest ends
  rw [Json.ofWord, Json.write]
  rw [text, List.cons_append] at reads ⊢
  exact readWord_of_read start reads word

/-- A field that is not there yet is read behind the colon. -/
theorem readMember_run {fields : Fields} {field : Field} (new : fields.has field = false)
    (s : List Char) :
    (readMember fields field.name).run (':' :: s) = (readField fields field).run s := by
  rw [readMember, Field.ofName?_name]
  simp only [new, Bool.false_eq_true, if_false, run_bind, Json.colon_run]

/-- What putting a child under its name comes to. -/
def keepChild (children : Named Value) (m : String × Json) : Except Fault (Named Value) := do
  let j ← Json.within m.2.nesting childRoom m.2
  let v ← Value.recognise j
  pure (children.put m.1 v)

theorem readChild_run {m : String × Json} (legible : m.2.Legible) (before : Named Value)
    (ends : Numeral.Ends rest) :
    (readChild before m.1).run (':' :: (m.2.write ++ rest)) =
      (keepChild before m).map (·, rest) := by
  rw [readChild, run_bind, Json.colon_run]
  simp only [run_bind, Value.readWithin_write legible childRoom rest ends]
  rw [keepChild]
  cases Json.within m.2.nesting childRoom m.2 with
  | error fault => rfl
  | ok j =>
    simp only [bind, Except.bind]
    cases Value.recognise j with
    | error fault => rfl
    | ok v => rfl

/-- Children go behind those that are there, until one is nested too deeply. -/
theorem foldlM_keepChild (children : List (String × Value))
    (inside : ChildrenNamesDistinct children)
    (before : Named Value) (distinct : (Named.names before ++ Named.names children).Nodup) :
    (childrenToJson children).foldlM keepChild before =
      Json.within (Json.membersNesting (childrenToJson children)) childRoom
        (before ++ childrenKept children) := by
  induction children generalizing before with
  | nil =>
    rw [childrenToJson, childrenKept, List.append_nil]
    exact (Json.within_of_le (Nat.zero_le _) _).symm
  | cons child children ih =>
    obtain ⟨name, value⟩ := child
    obtain ⟨inside, insideRest⟩ := inside
    have new : name ∉ Named.names before := by
      intro mem
      exact (List.nodup_append.mp distinct).2.2 name mem name List.mem_cons_self rfl
    have distinct' : (Named.names (before ++ [(name, value.kept)]) ++
        Named.names children).Nodup := by
      simpa [Named.names] using distinct
    have later := ih insideRest _ distinct'
    have here : keepChild before (name, value.toJson) =
        Json.within value.toJson.nesting childRoom (before ++ [(name, value.kept)]) := by
      rw [keepChild]
      rcases Nat.lt_or_ge childRoom value.toJson.nesting with deep | fits
      · rw [Json.within_of_lt deep, Json.within_of_lt deep]
        rfl
      · rw [Json.within_of_le fits, Json.within_of_le fits, ← Named.put_of_not_mem new]
        simp only [bind, Except.bind, Value.recognise_toJson inside]
        rfl
    rw [childrenToJson, List.foldlM_cons, here, Json.membersNesting]
    apply Json.within_bind
    rw [later, List.append_assoc]
    rfl

theorem readChildren_run {children : List (String × Value)}
    (legible : ∀ m ∈ childrenToJson children, m.2.Legible)
    (inside : ChildrenNamesDistinct children) (distinct : (Named.names children).Nodup)
    (rest : List Char) :
    readChildren.run ((Json.object (childrenToJson children)).write ++ rest) =
      (Json.within (Json.membersNesting (childrenToJson children)) childRoom
        (childrenKept children)).map (·, rest) := by
  have text : (Json.object (childrenToJson children)).write ++ rest =
      '\x7b' :: (Json.writeMembers (childrenToJson children) ++ '\x7d' :: rest) := by
    simp [Json.write]
  have opens : ∀ s, readChildren.run ('\x7b' :: s) =
      (Json.objectRest (Json.refuseClosing '\x7d') Json.stringRest readChild []).run s := by
    intro s
    simp [readChildren, isBlank]
  have members := Json.objectRest_run
    (fun m mem state rest ends => readChild_run (legible m mem) state ends) [] rest
  rw [text, opens, members, foldlM_keepChild children inside [] distinct, List.nil_append]

/-- **A written node reads back** where it stands, if its brackets are nested no deeper than the
reader lets them; and if they are, that is the fault. -/
theorem read_write {n : Node} (legible : n.toJson.Legible) (distinct : n.NamesDistinct)
    (rest : List Char) :
    Node.read.run (n.toJson.write ++ rest) =
      (Json.within n.toJson.nesting Json.maxDepth n.kept).map (·, rest) := by
  obtain ⟨kind, flags, line, children⟩ := n
  obtain ⟨distinct, inside⟩ := distinct
  have parts : ∀ m ∈ childrenToJson children, m.2.Legible := by
    cases legible with
    | object members =>
      have object : (Json.object (childrenToJson children)).Legible :=
        members (Field.children.name, _) (by simp)
      cases object with
      | object members => exact members
  -- The depth of the node is that of its children, and the brackets of two objects.
  have deep : (toJson ⟨kind, flags, line, children⟩).nesting =
      Json.membersNesting (childrenToJson children) + 1 + 1 := by
    simp [toJson, Json.nesting, Json.membersNesting, Json.ofWord]
  have room : Json.maxDepth = childRoom + 1 + 1 := rfl
  rw [deep, room, Json.within_succ, Json.within_succ]
  have opens : ∀ s, Node.read.run ('\x7b' :: s) = readMembers.run s := by
    intro s
    simp [Node.read, isBlank]
  have text : ∀ members, (Json.object members).write ++ rest =
      '\x7b' :: (Json.writeMembers members ++ '\x7d' :: rest) := by
    intro members
    simp [Json.write]
  have kind_run : ∀ t, (readField {} .kind).run ((Json.string kind.tag).write ++ t) =
      .ok ({ kind := some kind }, t) := by
    intro t
    simp [readField, Kind.read, Json.write, readString_run, Kind.ofTag_tag]
  have flags_run : ∀ t, Numeral.Ends t →
      (readField { kind := some kind } .flags).run ((Json.ofWord flags.bits).write ++ t) =
        .ok ({ kind := some kind, flags := some flags.bits }, t) := by
    intro t ends
    simp [readField, readWord_run _ ends]
  have line_run : ∀ t, Numeral.Ends t →
      (readField { kind := some kind, flags := some flags.bits } .line).run
          ((Json.ofWord line).write ++ t) =
        .ok ({ kind := some kind, flags := some flags.bits, line := some line }, t) := by
    intro t ends
    simp [readField, readWord_run _ ends]
  have children_run : ∀ fields t, (readField fields .children).run
      ((Json.object (childrenToJson children)).write ++ t) =
        ((Json.within (Json.membersNesting (childrenToJson children)) childRoom
          { fields with children := some (childrenKept children) }).map (·, t)) := by
    intro fields t
    rw [readField, run_bind, readChildren_run parts inside distinct]
    rcases Nat.lt_or_ge childRoom (Json.membersNesting (childrenToJson children)) with deep | fits
    · rw [Json.within_of_lt deep, Json.within_of_lt deep]
      rfl
    · rw [Json.within_of_le fits, Json.within_of_le fits]
      rfl
  rw [toJson, text, opens, readMembers, run_bind, Json.objectRest_cons, run_bind,
    readMember_run rfl, kind_run]
  simp only
  rw [Json.moreMembers_cons, run_bind, readMember_run rfl,
    flags_run _ (Json.ends_writeMoreMembers _ _)]
  simp only
  rw [Json.moreMembers_cons, run_bind, readMember_run rfl,
    line_run _ (Json.ends_writeMoreMembers _ _)]
  simp only
  rw [Json.moreMembers_cons, run_bind, readMember_run rfl, children_run]
  rcases Nat.lt_or_ge childRoom (Json.membersNesting (childrenToJson children)) with deep | fits
  · rw [Json.within_of_lt deep, Json.within_of_lt deep]
    rfl
  · rw [Json.within_of_le fits, Json.within_of_le fits]
    simp only [Except.map]
    rw [Json.writeMoreMembers, List.nil_append, Json.moreMembers_close]
    rfl

end Node

/-! ## Whole texts -/

/-- What reads the text of a JSON value up to the limit, and finds nothing behind it, gives the
outcome by the nesting of that text. -/
theorem mapError_readAll {α : Type} {p : Reader α} {j : Json} {a : α}
    (run : p.run (j.write ++ []) = (Json.within j.nesting Json.maxDepth a).map (·, [])) :
    (p.readAll j.text).mapError TreeError.malformed =
      if Json.textNesting j.text ≤ 127 then .ok a else .error (.malformed .tooDeep) := by
  have chars : j.text.toList = j.write ++ [] := by
    rw [Json.text, String.toList_ofList, List.append_nil]
  have limit : Json.maxDepth = 127 := rfl
  rw [Json.textNesting_text, ← limit]
  rcases Nat.lt_or_ge Json.maxDepth j.nesting with deep | fits
  · rw [Json.within_of_lt deep] at run
    rw [if_neg (Nat.not_le.mpr deep), readAll, chars, run]
    rfl
  · rw [Json.within_of_le fits] at run
    rw [if_pos fits, readAll, chars, run]
    rfl

/-- **Trees read back up to the depth limit.** If every finite double of a tree reads back from its
own text, the text of the tree reads back as the tree, but for the doubles that are not finite, as
long as its brackets are nested at most 127 deep; a text nested deeper is refused for that. The
names of the children of a node are distinct in every tree that a builder or a reader makes. -/
theorem ofText_text :
    (∀ v : Value, v.NamesDistinct → (∀ x ∈ v.floats, x.isFinite → x.ReadsBack) →
      Value.ofText v.text =
        if Json.textNesting v.text ≤ 127 then .ok v.kept else .error (.malformed .tooDeep)) ∧
    (∀ n : Node, n.NamesDistinct → (∀ x ∈ n.floats, x.isFinite → x.ReadsBack) →
      Node.ofText n.text =
        if Json.textNesting n.text ≤ 127 then .ok n.kept else .error (.malformed .tooDeep)) ∧
    Fault.tooDeep.message = "recursion limit exceeded" := by
  refine ⟨fun v distinct back => ?_, fun n distinct back => ?_, rfl⟩
  · have legible := v.legible_toJson fun x mem finite => (back x mem finite).legible finite
    apply mapError_readAll
    rw [Value.read, Value.readWithin_write legible _ _ Numeral.ends_nil]
    rcases Nat.lt_or_ge Json.maxDepth v.toJson.nesting with deep | fits
    · rw [Json.within_of_lt deep, Json.within_of_lt deep]
      rfl
    · rw [Json.within_of_le fits, Json.within_of_le fits, ← Value.recognise_toJson distinct]
      rfl
  · have legible := n.legible_toJson fun x mem finite => (back x mem finite).legible finite
    exact mapError_readAll (Node.read_write legible distinct [])

/-- An element `1.5` with an infinite key, in a list with an empty slot and on its own: the key is
written as null. -/
theorem ofText_text_arrayElem :
    let element : Node :=
      .arrayElem (.float ⟨0x3FF8000000000000⟩) (some (.float ⟨0x7FF0000000000000⟩))
    let kept : Node := .arrayElem (.float ⟨0x3FF8000000000000⟩) (some .null)
    Value.ofText (Value.list [none, some element]).text = .ok (.list [none, some kept]) ∧
      Node.ofText element.text = .ok kept := by
  intro element kept
  have distinct : element.NamesDistinct := ⟨by decide, trivial, trivial, trivial⟩
  have floats : ∀ x ∈ element.floats, x.isFinite → x.ReadsBack := by
    intro x mem finite
    rcases List.mem_pair.mp mem with rfl | rfl
    · exact Binary64.readsBack_of_read finite (by decide +kernel)
    · exact absurd finite (by decide)
  have value := ofText_text.1 (.list [none, some element]) ⟨distinct, trivial⟩
    (by simpa [Value.floats, slotsFloats] using floats)
  have node := ofText_text.2.1 element distinct floats
  rw [if_pos (by decide +kernel)] at value node
  exact ⟨value, node⟩

end ShortForm
