import ShortForm.Proofs.Tree.Build
import ShortForm.Proofs.Tree.Presented

/-!
# Nodes that list their children

An object says of a node its kind, its flags, its line, and its children one after the other, where
a name may come more than once. Reading it comes to the same as building the node step by step
(`Node.ofText_listing`): both put the children in one after the other. So of a name that is repeated
the last value counts, and it stands where the name first came.

A value among the children may be written in any way, with blanks and fields as it likes: all that
is asked is that its text by itself holds the value.
-/

namespace ShortForm

open Json

/-! ## Listings -/

/-- What an object says of a node. -/
structure Node.Listing where
  tag : String
  flags : UInt32
  line : UInt32
  children : Named Value

/-- A text of a child: its name, a colon, and any text that holds its value. -/
inductive ChildText : String × Value → List Char → Prop where
  | mk {name : String} {v : Value} {nameText gap t : List Char} : StringText name nameText →
      Blanks gap → Value.ofText (String.ofList t) = .ok v →
      ChildText (name, v) (nameText ++ (gap ++ ':' :: t))

namespace Node.Listing

/-- A text of a field: its name, a colon, and what the listing says of it. -/
inductive FieldText (l : Listing) : Field → List Char → Prop where
  | kind {t : List Char} : MemberText SpelledBy (Field.kind.name, .string l.tag) t →
      FieldText l .kind t
  | flags {t : List Char} : MemberText SpelledBy (Field.flags.name, .ofWord l.flags) t →
      FieldText l .flags t
  | line {t : List Char} : MemberText SpelledBy (Field.line.name, .ofWord l.line) t →
      FieldText l .line t
  | children {nameText gap gap' t : List Char} : StringText Field.children.name nameText →
      Blanks gap → Blanks gap' → Listed ChildText l.children t →
      FieldText l .children (nameText ++ (gap ++ ':' :: (gap' ++ '\x7b' :: (t ++ ['\x7d']))))

/-- The text is an object with the four fields in any order. -/
inductive WrittenIn (l : Listing) (text : String) : Prop where
  | mk {fields : List Field} {gap t gap' : List Char} : fields.Perm Field.all → Blanks gap →
      Listed l.FieldText fields t → Blanks gap' →
      text.toList = gap ++ ('\x7b' :: (t ++ ['\x7d']) ++ gap') → WrittenIn l text

/-- The node that is built of what the listing says, step by step. -/
def build (l : Listing) : Node :=
  l.children.foldl (fun n (name, value) => n.withChild name value)
    ((ofKind (.ofTag l.tag)).withFlags ⟨l.flags⟩ |>.withLine l.line)

end Node.Listing

/-! ## Reading what is listed -/

/-- The text of a child is a text of a member that is recognised as the child, with blanks behind
it. -/
theorem ChildText.represents : Represents IsChild ChildText (MemberText SpelledBy) := by
  rintro _ _ @⟨name, v, nameText, gap, t, named, blanks, holds⟩
  obtain ⟨j, ⟨before, here, behind, chars⟩, _, recognised⟩ := Value.ofText_eq_ok_iff.mp holds
  rw [String.toList_ofList] at chars
  subst chars
  exact ⟨(name, j), _, _, by simp, behind, ⟨rfl, recognised⟩, .mk named blanks before here⟩

namespace Node.Listing

variable (l : Listing)

theorem build_eq :
    l.build = ⟨.ofTag l.tag, ⟨l.flags⟩, l.line, Named.putAll [] l.children⟩ := by
  rw [build, foldl_withChild]
  rfl

/-- The member is a field of the node that is built. -/
def IsField (field : Field) (m : String × Json) : Prop :=
  m.1 = field.name ∧ l.build.HasField field m.2

/-- The text of a field is a text of a member that is that field of the node that is built. -/
theorem FieldText.represents : Represents l.IsField l.FieldText (MemberText SpelledBy) := by
  intro field t text
  cases text with
  | kind here => exact ⟨_, t, [], by simp, .nil, ⟨rfl, by rw [build_eq]; rfl⟩, here⟩
  | flags here =>
    exact ⟨_, t, [], by simp, .nil, ⟨rfl, by rw [build_eq]; exact word?_ofWord l.flags⟩, here⟩
  | line here =>
    exact ⟨_, t, [], by simp, .nil, ⟨rfl, by rw [build_eq]; exact word?_ofWord l.line⟩, here⟩
  | children named blanks behind listed =>
    obtain ⟨members, recognised, listed⟩ := listed.represents ChildText.represents
    refine ⟨(Field.children.name, .object members), _, [], by simp, .nil, ⟨rfl, ?_⟩,
      .mk named blanks behind (.object listed)⟩
    rw [build_eq]
    exact childrenOfMembers?_of_isChild recognised []

theorem map_fst_of_isField {fields : List Field} {members : List (String × Json)}
    (each : List.Forall₂ l.IsField fields members) :
    members.map (·.1) = fields.map Field.name := by
  induction each with
  | nil => rfl
  | cons here _ ih => rw [List.map_cons, List.map_cons, here.1, ih]

theorem isField_of_mem {fields : List Field} {members : List (String × Json)}
    (each : List.Forall₂ l.IsField fields members) {m : String × Json} (mem : m ∈ members) :
    ∃ field, l.IsField field m := by
  induction each with
  | nil => cases mem
  | cons here _ ih =>
    rcases List.mem_cons.mp mem with rfl | mem
    · exact ⟨_, here⟩
    · exact ih mem

/-- Members that are the four fields in any order are recognised as the node that is built. -/
theorem ofJson?_of_isField {fields : List Field} {members : List (String × Json)}
    (order : fields.Perm Field.all) (each : List.Forall₂ l.IsField fields members) :
    Node.ofJson? (.object members) = some l.build := by
  have names := l.map_fst_of_isField each
  have distinct : (fields.map Field.name).Nodup :=
    (order.nodup_iff.mpr (by decide)).map fun _ _ => Field.name_injective
  refine Node.ofJson?_of_members (fun field => ?_) (fun field j mem => ?_) fun field absent => ?_
  · rw [names]
    exact List.nodup_iff_count_le_one.mp distinct field.name
  · obtain ⟨field', same, has⟩ := l.isField_of_mem each mem
    obtain rfl := Field.name_injective same
    exact has
  · refine absurd (List.mem_map_of_mem (order.mem_iff.mpr ?_)) (names ▸ absent)
    cases field <;> decide

/-- A listing is read as the node that is built of it. -/
theorem WrittenIn.ofText {text : String} (written : l.WrittenIn text)
    (fits : textNesting text ≤ maxDepth) : Value.ofText text = .ok (.node l.build) := by
  obtain ⟨order, before, listed, behind, chars⟩ := written
  obtain ⟨members, each, listed⟩ := listed.represents (FieldText.represents l)
  have spelled : Json.SpelledIn (.object members) text := .mk before (.object listed) behind chars
  refine Value.ofText_eq_ok_iff.mpr ⟨_, spelled, spelled.textNesting ▸ fits, ?_⟩
  exact Value.ofJson?_eq_node.mpr (l.ofJson?_of_isField order each)

end Node.Listing

/-- **Reading a listing comes to the same as building it**, names repeated or not. In the node that
it comes to, each name stands where it first came, and has the value that came last. -/
theorem Node.ofText_listing (l : Node.Listing) (text : String) (written : l.WrittenIn text)
    (fits : textNesting text ≤ 127) :
    Node.ofText text = .ok l.build ∧ Value.ofText text = .ok (.node l.build) ∧
    l.build.kind.HasTag l.tag ∧ l.build.flags = ⟨l.flags⟩ ∧ l.build.line = l.line ∧
    (Named.names l.build.children).Nodup ∧
    Named.names l.build.children = (Named.names l.children).eraseDups ∧
    (∀ before name v after, l.children = before ++ (name, v) :: after →
      name ∉ Named.names after → l.build.child? name = some v) ∧
    ∀ name, name ∉ Named.names l.children → l.build.child? name = none := by
  have value := written.ofText l fits
  refine ⟨Node.ofText_of_value value, value, ?_⟩
  rw [l.build_eq]
  refine ⟨Kind.hasTag_ofTag l.tag, rfl, rfl, Named.nodup_names_putAll _ List.nodup_nil,
    Named.names_putAll _, fun before name v after listed last => ?_, fun name absent => ?_⟩
  · rw [listed]
    exact Named.get?_putAll_of_last [] before after name v last
  · exact Named.get?_putAll_of_not_mem [] absent

/-- A name comes twice, a tag is not listed, and a value has a blank behind it. -/
theorem Node.ofText_listing_twice :
    let l : Node.Listing := ⟨"none", 1, 5,
      [("a", .null), ("b", .list [none, some ⟨.var, .zero, 0, []⟩]), ("a", .bool true)]⟩
    let text := "\x7b\"lineno\": 5,\"children\":\x7b\"a\":null ,\"b\":[null,[\"AST_VAR\"]]," ++
      "\"a\":true\x7d,\"kind\":\"none\",\"flags\":1\x7d\n"
    l.WrittenIn text ∧ textNesting text ≤ 127 ∧ Node.ofText text = .ok l.build ∧
      Named.names l.build.children = ["a", "b"] ∧ l.build.child? "a" = some (.bool true) := by
  intro l text
  have word (w : UInt32) : SpelledBy (.ofWord w) (Number.int w.toNat).write :=
    .number (Written.spelledBy ⟨rfl, fun rest ends =>
      Number.read_write_int ends (by omega) (by have := w.toNat_lt; omega)⟩)
  have space : Blanks [' '] := by simp [Blanks, Reader.isBlank]
  have holds {j : Json} {v : Value} {t gap : List Char} (spelled : j.SpelledBy t)
      (behind : Blanks gap) (fits : j.nesting ≤ maxDepth) (recognised : Value.ofJson? j = some v) :
      Value.ofText (String.ofList (t ++ gap)) = .ok v :=
    Value.ofText_eq_ok_iff.mpr
      ⟨j, .mk .nil spelled behind (by rw [String.toList_ofList]; rfl), fits, recognised⟩
  have slots : SpelledBy (.array [.null, .array [.string "AST_VAR"]]) _ :=
    .array (.cons .nil .null (.cons .nil .nil
      (.array (.cons .nil (.string (stringText_writeString _)) (.nil .nil))) (.nil .nil)))
  have first : ChildText ("a", .null) _ :=
    .mk (stringText_writeString _) .nil (holds .null space (by decide) rfl)
  have second : ChildText ("b", .list [none, some ⟨.var, .zero, 0, []⟩]) _ :=
    .mk (stringText_writeString _) .nil (holds slots .nil (by decide) rfl)
  have third : ChildText ("a", .bool true) _ :=
    .mk (stringText_writeString _) .nil (holds .yes .nil (by decide) rfl)
  have line : l.FieldText .line _ :=
    .line (.mk (stringText_writeString _) .nil space (word 5))
  have children : l.FieldText .children _ :=
    .children (stringText_writeString _) .nil .nil
      (.cons .nil first (.cons .nil .nil second (.cons .nil .nil third (.nil .nil))))
  have kind : l.FieldText .kind _ :=
    .kind (.mk (stringText_writeString _) .nil .nil (.string (stringText_writeString _)))
  have flags : l.FieldText .flags _ :=
    .flags (.mk (stringText_writeString _) .nil .nil (word 1))
  have listed : Listed l.FieldText [.line, .children, .kind, .flags] _ :=
    .cons .nil line (.cons .nil .nil children (.cons .nil .nil kind
      (.cons .nil .nil flags (.nil .nil))))
  have written : l.WrittenIn text := by
    refine @Node.Listing.WrittenIn.mk l text _ [] _ ['\n'] ?_ .nil listed ?_ ?_
    · decide
    · simp [Blanks, Reader.isBlank]
    · decide +kernel
  have fits : textNesting text ≤ 127 := by decide +kernel
  obtain ⟨node, _, _, _, _, _, names, found, _⟩ := ofText_listing l text written fits
  exact ⟨written, fits, node, names, found [_, _] "a" (.bool true) [] rfl List.not_mem_nil⟩

end ShortForm
