import ShortForm.Proofs.Literal
import ShortForm.Proofs.Printer.Parts

/-!
# Array literals are shown unambiguously

An array literal is a scalar or an array of array literals. From the short form of an array literal
the tree can be told, up to doubles with the same text. Commas, arrows and brackets may stand in its
strings and its keys may be arrays, so the proof reads the text from the left: the first character
that belongs to the layout says what kind of value is shown, and what can follow a value begins with
no character of a value. So a value ends in one place only, whatever text goes on behind it
(`ReadsOneWay`), and an array is read slot by slot.

A single slot that is empty is left out, since it is shown like no slot at all. So are arrays in the
long form, which are shown like those in the short form.
-/

namespace ShortForm

/-! ## Array literals -/

/-- A slot of an array, empty or with a value and perhaps a key. -/
abbrev Slot := Option (Value × Option Value)

/-- The element in a slot. -/
def Slot.element? (slot : Slot) : Option Node := slot.map fun (value, key) => .arrayElem value key

/-- A scalar, or an array whose slots are empty or hold an array literal, some of them behind a key
that is an array literal other than null. -/
inductive Value.IsArrayLiteral : Value → Prop where
  | scalar {v : Value} (hasLiteral : v.literal?.isSome) : IsArrayLiteral v
  | array {form : ArrayForm} {slots : List Slot} (notLong : form = .short ∨ form = .list)
      (notOneEmpty : slots ≠ [none])
      (values : ∀ value key, some (value, key) ∈ slots → IsArrayLiteral value)
      (keys : ∀ value key, some (value, some key) ∈ slots → IsArrayLiteral key)
      (keysNotNull : ∀ value key, some (value, some key) ∈ slots → key ≠ .null) :
      IsArrayLiteral (.node (.array form (slots.map Slot.element?)))

mutual

/-- Two nodes are the same up to doubles with the same literal. -/
def Node.sameUpToFloats : Node → Node → Bool
  | ⟨kind, flags, line, children⟩, other =>
    kind == other.kind && flags == other.flags && line == other.line &&
      childrenSameUpToFloats children other.children
termination_by structural a => a

/-- Two values are the same up to doubles with the same literal. -/
def Value.sameUpToFloats : Value → Value → Bool
  | .null, .null => true
  | .bool a, .bool b => a == b
  | .int a, .int b => a == b
  | .float a, .float b => Literal.float a == Literal.float b
  | .string a, .string b => a == b
  | .node a, .node b => a.sameUpToFloats b
  | .list a, .list b => slotsSameUpToFloats a b
  | _, _ => false
termination_by structural a => a

/-- Two children with the same name and the same value up to doubles. -/
def childSameUpToFloats : String × Value → String × Value → Bool
  | (name, value), (otherName, other) => name == otherName && value.sameUpToFloats other
termination_by structural a => a

/-- The same names in the same order, with the same values up to doubles. -/
def childrenSameUpToFloats : List (String × Value) → List (String × Value) → Bool
  | [], [] => true
  | child :: rest, other :: others =>
    childSameUpToFloats child other && childrenSameUpToFloats rest others
  | _, _ => false
termination_by structural a => a

/-- Two slots are both empty or hold nodes that are the same up to doubles. -/
def slotSameUpToFloats : Option Node → Option Node → Bool
  | none, none => true
  | some a, some b => a.sameUpToFloats b
  | _, _ => false
termination_by structural a => a

/-- Two lists of slots are the same slot by slot up to doubles. -/
def slotsSameUpToFloats : List (Option Node) → List (Option Node) → Bool
  | [], [] => true
  | slot :: rest, other :: others =>
    slotSameUpToFloats slot other && slotsSameUpToFloats rest others
  | _, _ => false
termination_by structural a => a

end

namespace ArrayForm

/-- What an array in this form begins with. -/
def opening : ArrayForm → List Char
  | short | long => ['[']
  | list => ['l', 'i', 's', 't', '(']

/-- What an array in this form ends with. -/
def closing : ArrayForm → Char
  | short | long => ']'
  | list => ')'

end ArrayForm

/-! ## What is shown -/

/-- The characters of the short form. -/
def Value.shown (v : Value) : List Char := v.shortForm.toList

/-- The characters that a slot shows. -/
def Slot.shown (slot : Slot) : List Char := (slot.element?.elim "" (Printer.slotText {})).toList

/-- The characters that slots show with commas between them. -/
def slotsShown (slots : List Slot) : List Char := [','].intercalate (slots.map Slot.shown)

theorem Value.shown_of_literal {v : Value} {text : String} (literal : v.literal? = some text) :
    v.shown = text.toList := by
  rw [shown, shortForm, Printer.render_of_literal _ literal]

theorem Slot.shown_none : Slot.shown none = [] := rfl

theorem Slot.shown_value (v : Value) : Slot.shown (some (v, none)) = v.shown := by
  show (Printer.slotText {} (.arrayElem v none)).toList = v.shown
  rw [Printer.slotText_arrayElem]
  rfl

theorem Slot.shown_keyed {key : Value} (notNull : key ≠ .null) (v : Value) :
    Slot.shown (some (v, some key)) = key.shown ++ '=' :: '>' :: v.shown := by
  show (Printer.slotText {} (.arrayElem v (some key))).toList = key.shown ++ '=' :: '>' :: v.shown
  rw [Printer.slotText_arrayElem]
  cases key with
  | null => exact absurd rfl notNull
  | _ =>
    simp only [String.toList_append, List.append_assoc]
    rfl

theorem slotsShown_cons_cons (first second : Slot) (slots : List Slot) :
    slotsShown (first :: second :: slots) = first.shown ++ ',' :: slotsShown (second :: slots) := by
  simp [slotsShown, List.intercalate_cons_cons]

theorem slotsShown_singleton (slot : Slot) : slotsShown [slot] = slot.shown := by
  simp [slotsShown]

/-- An array shows its slots between its brackets. -/
theorem Value.shown_array (form : ArrayForm) (slots : List Slot) :
    Value.shown (.node (.array form (slots.map Slot.element?))) =
      form.opening ++ (slotsShown slots ++ [form.closing]) := by
  have texts : (",".intercalate ((slots.map Slot.element?).map fun slot =>
      slot.elim "" (Printer.slotText {}))).toList = slotsShown slots := by
    rw [String.toList_intercalate, List.map_map, List.map_map]
    rfl
  rw [shown, shortForm, Printer.render_builtArray _ rfl, ← texts]
  cases form <;> simp only [String.toList_append, List.append_assoc] <;> rfl

/-! ## The first mark

A mark is a character of the layout. The first one in what is shown says what kind of value it is.
-/

/-- A character of the layout of arrays or of the quotes of strings. -/
def isMark (c : Char) : Bool := c ∈ [',', ']', ')', '=', '[', '(', '\'']

/-- What can stand behind a value in an array. -/
def Behind (rest : List Char) : Prop := ∀ c ∈ rest.head?, c ∈ [',', ']', ')', '=']

/-- The first mark in what a value shows. -/
def Value.mark? : Value → Option Char
  | .string _ => some '\''
  | .node n => some (if ArrayForm.ofFlags n.flags = .list then '(' else '[')
  | _ => none

theorem Value.mark?_mem {v : Value} {c : Char} (mark : v.mark? = some c) :
    c ∈ ['\'', '(', '['] := by
  cases v with
  | string s =>
    simp only [mark?, Option.some.injEq] at mark
    simp [← mark]
  | node n =>
    simp only [mark?, Option.some.injEq] at mark
    split at mark <;> simp [← mark]
  | _ => cases mark

theorem isMark_of_isFloatPart {c : Char} (part : Literal.isFloatPart c) : isMark c = false := by
  rw [Bool.eq_false_iff]
  intro mark
  simp only [isMark, decide_eq_true_eq, List.mem_cons, List.not_mem_nil, or_false] at mark
  rcases mark with rfl | rfl | rfl | rfl | rfl | rfl | rfl <;> exact absurd part (by decide)

/-- A scalar that is not a string shows something, and no mark. -/
theorem Value.shown_unmarked {v : Value} (literal : v.literal?.isSome) (plain : v.mark? = none) :
    v.shown ≠ [] ∧ ∀ c ∈ v.shown, isMark c = false := by
  have word {text : String} (mem : text ∈ ["null", "true", "false"]) :
      text.toList ≠ [] ∧ ∀ c ∈ text.toList, isMark c = false := by
    simp only [List.mem_cons, List.not_mem_nil, or_false] at mem
    rcases mem with rfl | rfl | rfl <;> simp [isMark]
  cases v with
  | null => exact shown_of_literal (v := .null) rfl ▸ word (by decide)
  | bool b => cases b <;> exact shown_of_literal (v := .bool _) rfl ▸ word (by decide)
  | int n =>
    rw [shown_of_literal (v := .int n) rfl]
    refine ⟨Literal.toString_ne_nil _, fun c mem => isMark_of_isFloatPart ?_⟩
    rcases Literal.isDigit_of_mem_toString mem with digit | rfl
    · rw [Literal.isFloatPart, Numeral.isPart_of_isDigit digit, Bool.true_or]
    · decide
  | float x =>
    rw [shown_of_literal (v := .float x) rfl]
    exact ⟨Literal.float_ne_nil x,
      fun c mem => isMark_of_isFloatPart (Literal.isFloatPart_of_mem_float mem)⟩
  | string s => cases plain
  | node n => cases plain
  | list slots => cases literal

theorem Value.shown_string (s : String) :
    (Value.string s).shown = '\'' :: (s.toList.flatMap Literal.quoted ++ ['\'']) := by
  rw [shown_of_literal (v := .string s) rfl, Literal.string, String.toList_ofList]

/-- **The first mark in a text that begins with a value is the one of the value.** A value without a
mark leaves it to what stands behind. -/
theorem Value.find?_shown {v : Value} (literal : v.IsArrayLiteral) (rest : List Char) :
    (v.shown ++ rest).find? isMark = v.mark?.or (rest.find? isMark) := by
  cases literal with
  | scalar hasLiteral =>
    cases plain : v.mark? with
    | none =>
      have unmarked := (shown_unmarked hasLiteral plain).2
      rw [List.find?_append, List.find?_eq_none.mpr (by simpa using unmarked)]
    | some c =>
      cases v with
      | string s =>
        rw [← plain, shown_string]
        rfl
      | node n => cases hasLiteral
      | _ => cases plain
  | @array form slots =>
    rw [shown_array, mark?, Node.array_eq, ArrayForm.ofFlags_flags]
    cases form <;> rfl

theorem behind_nil : Behind [] := nofun

theorem behind_of_slotEnd {c : Char} (ends : c ∈ [',', ']', ')']) (text : List Char) :
    Behind (c :: text) :=
  fun _ head => Option.some.inj head ▸ List.mem_append_left ['='] ends

theorem behind_arrow (text : List Char) : Behind ('=' :: text) := by
  intro c head
  cases head
  decide

theorem find?_of_behind {rest : List Char} (behind : Behind rest) :
    rest.find? isMark = rest.head? := by
  cases rest with
  | nil => rfl
  | cons c rest =>
    have mem := behind c rfl
    have mark : isMark c = true := by
      simp only [List.mem_cons, List.not_mem_nil, or_false] at mem
      rcases mem with rfl | rfl | rfl | rfl <;> decide
    rw [List.find?_cons_of_pos mark, List.head?_cons]

/-- The same text begins with values of one kind only. -/
theorem Value.mark?_eq {v w : Value} (left : v.IsArrayLiteral) (right : w.IsArrayLiteral)
    {rest other : List Char} (restBehind : Behind rest) (otherBehind : Behind other)
    (same : v.shown ++ rest = w.shown ++ other) : v.mark? = w.mark? := by
  have first := congrArg (List.find? isMark) same
  rw [find?_shown left, find?_shown right, find?_of_behind restBehind,
    find?_of_behind otherBehind] at first
  have apart {u : Value} {c : Char} {text : List Char} (mark : u.mark? = some c)
      (behind : Behind text) : text.head? ≠ some c := by
    intro head
    have inner := mark?_mem mark
    have outer := behind c head
    simp only [List.mem_cons, List.not_mem_nil, or_false] at inner outer
    rcases inner with rfl | rfl | rfl <;> simp at outer
  cases leftMark : v.mark? with
  | none =>
    cases rightMark : w.mark? with
    | none => rfl
    | some d =>
      rw [leftMark, rightMark, Option.none_or, Option.some_or] at first
      exact absurd first (apart rightMark restBehind)
  | some c =>
    cases rightMark : w.mark? with
    | none =>
      rw [leftMark, rightMark, Option.none_or, Option.some_or] at first
      exact absurd first.symm (apart leftMark otherBehind)
    | some d =>
      rw [leftMark, rightMark, Option.some_or, Option.some_or] at first
      exact first

/-! ## Values that are read one way -/

/-- Whatever a text that begins with the value goes on with, no other array literal begins it, and
the value ends in one place only. -/
def Value.ReadsOneWay (v : Value) : Prop :=
  ∀ w : Value, w.IsArrayLiteral → ∀ rest other, Behind rest → Behind other →
    v.shown ++ rest = w.shown ++ other → v.sameUpToFloats w ∧ rest = other

theorem append_inj_of_unmarked {s t rest other : List Char} (left : ∀ c ∈ s, isMark c = false)
    (right : ∀ c ∈ t, isMark c = false) (restBehind : Behind rest) (otherBehind : Behind other)
    (same : s ++ rest = t ++ other) : s = t ∧ rest = other := by
  have stops {text : List Char} (behind : Behind text) :
      text.takeWhile (fun c => !isMark c) = [] := by
    have first := find?_of_behind behind
    cases text with
    | nil => rfl
    | cons c text =>
      have mark : isMark c = true := List.find?_some (first.trans List.head?_cons)
      simp [mark]
  have before := congrArg (List.takeWhile fun c => !isMark c) same
  rw [List.takeWhile_append_of_pos (by simpa using left), stops restBehind,
    List.takeWhile_append_of_pos (by simpa using right), stops otherBehind, List.append_nil,
    List.append_nil] at before
  subst before
  exact ⟨rfl, List.append_cancel_left same⟩

/-- Scalars other than strings are told apart by their literals. -/
theorem Value.sameUpToFloats_of_literal {v w : Value} {text : String}
    (left : v.literal? = some text) (right : w.literal? = some text) (plain : v.mark? = none)
    (otherPlain : w.mark? = none) : v.sameUpToFloats w := by
  have word {u : Value} (shown : u.literal? = some text) (isWord : u = .null ∨ ∃ b, u = .bool b) :
      text ∈ ["null", "true", "false"] := by
    rcases isWord with rfl | ⟨b, rfl⟩
    · cases shown
      decide
    · cases b <;> cases shown <;> decide
  have same := left.trans right.symm
  cases v with
  | null =>
    have text := word left (.inl rfl)
    cases w with
    | null => rfl
    | bool b => cases b <;> exact absurd (Option.some.inj same) (by decide)
    | int n => exact absurd (Option.some.inj right ▸ text) (Literal.toString_ne_word _)
    | float y => exact absurd (Option.some.inj right ▸ text) (Literal.float_ne_word y)
    | string s => cases otherPlain
    | node n => cases otherPlain
    | list slots => cases right
  | bool a =>
    have text := word left (.inr ⟨a, rfl⟩)
    cases w with
    | null => cases a <;> exact absurd (Option.some.inj same) (by decide)
    | bool b =>
      cases a <;> cases b <;> first | rfl | exact absurd (Option.some.inj same) (by decide)
    | int n => exact absurd (Option.some.inj right ▸ text) (Literal.toString_ne_word _)
    | float y => exact absurd (Option.some.inj right ▸ text) (Literal.float_ne_word y)
    | string s => cases otherPlain
    | node n => cases otherPlain
    | list slots => cases right
  | int m =>
    cases w with
    | null | bool b =>
      have text := word right (by simp)
      exact absurd (Option.some.inj left ▸ text) (Literal.toString_ne_word _)
    | int n =>
      have number := Literal.toString_injective (Option.some.inj same)
      simp [sameUpToFloats, number]
    | float y => exact absurd (Option.some.inj same) (Literal.toString_ne_float _ y)
    | string s => cases otherPlain
    | node n => cases otherPlain
    | list slots => cases right
  | float x =>
    cases w with
    | null | bool b =>
      have text := word right (by simp)
      exact absurd (Option.some.inj left ▸ text) (Literal.float_ne_word x)
    | int n => exact absurd (Option.some.inj same).symm (Literal.toString_ne_float _ x)
    | float y =>
      have number : Literal.float x = Literal.float y := Option.some.inj same
      simp [sameUpToFloats, number]
    | string s => cases otherPlain
    | node n => cases otherPlain
    | list slots => cases right
  | string s => cases plain
  | node n => cases plain
  | list slots => cases left

/-- A scalar and a node have different marks. -/
theorem Value.mark?_ne_of_literal {v : Value} (hasLiteral : v.literal?.isSome) (n : Node) :
    v.mark? ≠ (Value.node n).mark? := by
  intro marks
  cases v with
  | string s =>
    simp only [mark?, Option.some.injEq] at marks
    split at marks <;> cases marks
  | node n => cases hasLiteral
  | _ => cases marks

theorem Value.readsOneWay_of_literal {v : Value} (hasLiteral : v.literal?.isSome) :
    v.ReadsOneWay := by
  intro w literal rest other restBehind otherBehind same
  have marks := mark?_eq (.scalar hasLiteral) literal restBehind otherBehind same
  cases literal with
  | array => exact absurd marks (mark?_ne_of_literal hasLiteral _)
  | scalar otherLiteral =>
    cases plain : v.mark? with
    | none =>
      have otherPlain := marks.symm.trans plain
      obtain ⟨shown, behind⟩ := append_inj_of_unmarked (shown_unmarked hasLiteral plain).2
        (shown_unmarked otherLiteral otherPlain).2 restBehind otherBehind same
      obtain ⟨text, left⟩ := Option.isSome_iff_exists.mp hasLiteral
      obtain ⟨otherText, right⟩ := Option.isSome_iff_exists.mp otherLiteral
      rw [shown_of_literal left, shown_of_literal right, String.toList_inj] at shown
      exact ⟨sameUpToFloats_of_literal left (shown ▸ right) plain otherPlain, behind⟩
    | some c =>
      cases v with
      | string s =>
        cases w with
        | string t =>
          have notBlank {text : List Char} (behind : Behind text) : text.head? ≠ some ' ' :=
            fun head => absurd (behind _ head) (by decide)
          simp only [shown_string, List.cons_append, List.append_assoc, List.nil_append,
            List.cons.injEq, true_and] at same
          obtain ⟨text, behind⟩ :=
            Literal.quotedText_inj (notBlank restBehind) (notBlank otherBehind) same
          simp [sameUpToFloats, String.toList_inj.mp text, behind]
        | node n => cases otherLiteral
        | _ => cases marks
      | node n => cases hasLiteral
      | _ => cases plain

/-! ## Slots -/

/-- Every value in the slot has the property, and a key in it is not null. -/
def Slot.All (P : Value → Prop) : Slot → Prop
  | none => True
  | some (value, none) => P value
  | some (value, some key) => P value ∧ P key ∧ key ≠ .null

theorem Slot.all_of {P : Value → Prop} {slots : List Slot}
    (values : ∀ value key, some (value, key) ∈ slots → P value)
    (keys : ∀ value key, some (value, some key) ∈ slots → P key)
    (keysNotNull : ∀ value key, some (value, some key) ∈ slots → key ≠ .null) :
    ∀ slot ∈ slots, slot.All P := by
  intro slot mem
  match slot with
  | none => trivial
  | some (value, none) => exact values value none mem
  | some (value, some key) =>
    exact ⟨values value _ mem, keys value key mem, keysNotNull value key mem⟩

/-- What an array literal shows does not begin like something behind it. -/
theorem Value.shown_head {v : Value} (literal : v.IsArrayLiteral) :
    ∃ c text, v.shown = c :: text ∧ c ∉ [',', ']', ')', '='] := by
  cases literal with
  | scalar hasLiteral =>
    cases plain : v.mark? with
    | none =>
      obtain ⟨nonempty, unmarked⟩ := shown_unmarked hasLiteral plain
      obtain ⟨c, text, shown⟩ := List.exists_cons_of_ne_nil nonempty
      refine ⟨c, text, shown, fun mem => ?_⟩
      have := unmarked c (shown ▸ List.mem_cons_self)
      simp only [List.mem_cons, List.not_mem_nil, or_false] at mem
      rcases mem with rfl | rfl | rfl | rfl <;> cases this
    | some c =>
      cases v with
      | string s => exact ⟨_, _, shown_string s, by decide⟩
      | node n => cases hasLiteral
      | _ => cases plain
  | @array form slots =>
    rw [shown_array]
    cases form <;> exact ⟨_, _, rfl, by decide⟩

theorem Slot.shown_head {value : Value} {key : Option Value}
    (literals : Slot.All Value.IsArrayLiteral (some (value, key))) :
    ∃ c text, Slot.shown (some (value, key)) = c :: text ∧ c ∉ [',', ']', ')', '='] := by
  cases key with
  | none => exact Slot.shown_value value ▸ Value.shown_head literals
  | some key =>
    obtain ⟨_, keyLiteral, notNull⟩ := literals
    obtain ⟨c, text, shown, outside⟩ := Value.shown_head keyLiteral
    exact ⟨c, _, by rw [Slot.shown_keyed notNull, shown]; rfl, outside⟩

theorem sameUpToFloats_arrayElem {value other : Value} {key otherKey : Option Value}
    (values : value.sameUpToFloats other)
    (keys : (key.getD .null).sameUpToFloats (otherKey.getD .null)) :
    (Node.arrayElem value key).sameUpToFloats (.arrayElem other otherKey) := by
  simp [Node.arrayElem_eq, Node.sameUpToFloats, childrenSameUpToFloats, childSameUpToFloats, values,
    keys]

/-- **A slot is read one way** in front of a comma or of the end of the array. -/
theorem Slot.readsOneWay {slot other : Slot} (reads : slot.All Value.ReadsOneWay)
    (left : slot.All Value.IsArrayLiteral) (right : other.All Value.IsArrayLiteral)
    {c d : Char} (ends : c ∈ [',', ']', ')']) (otherEnds : d ∈ [',', ']', ')'])
    {rest behind : List Char} (same : slot.shown ++ c :: rest = other.shown ++ d :: behind) :
    (Node.ofSlot slot.element?).sameUpToFloats (Node.ofSlot other.element?) ∧
      c = d ∧ rest = behind := by
  have apart {e : Char} (mem : e ∈ [',', ']', ')']) : e ≠ '=' := by
    rintro rfl
    exact absurd mem (by decide)
  match slot, other with
  | none, none =>
    simp only [Slot.shown_none, List.nil_append, List.cons.injEq] at same
    exact ⟨rfl, same⟩
  | none, some (value, key) =>
    obtain ⟨e, text, shown, outside⟩ := Slot.shown_head right
    rw [shown, Slot.shown_none] at same
    injection same with first
    exact absurd (first ▸ List.mem_append_left ['='] ends) outside
  | some (value, key), none =>
    obtain ⟨e, text, shown, outside⟩ := Slot.shown_head left
    rw [shown, Slot.shown_none] at same
    injection same with first
    exact absurd (first ▸ List.mem_append_left ['='] otherEnds) outside
  | some (value, none), some (other, none) =>
    rw [Slot.shown_value, Slot.shown_value] at same
    obtain ⟨values, tails⟩ := reads other right _ _ (behind_of_slotEnd ends _)
      (behind_of_slotEnd otherEnds _) same
    injection tails with first rest
    exact ⟨sameUpToFloats_arrayElem values rfl, first, rest⟩
  | some (value, none), some (other, some key) =>
    rw [Slot.shown_value, Slot.shown_keyed right.2.2, List.append_assoc] at same
    obtain ⟨_, tails⟩ := reads key right.2.1 _ _ (behind_of_slotEnd ends _) (behind_arrow _) same
    injection tails with first
    exact absurd first (apart ends)
  | some (value, some key), some (other, none) =>
    rw [Slot.shown_value, Slot.shown_keyed left.2.2, List.append_assoc] at same
    obtain ⟨_, tails⟩ := reads.2.1 other right _ _ (behind_arrow _)
      (behind_of_slotEnd otherEnds _) same
    injection tails with first
    exact absurd first.symm (apart otherEnds)
  | some (value, some key), some (other, some otherKey) =>
    rw [Slot.shown_keyed left.2.2, Slot.shown_keyed right.2.2, List.append_assoc,
      List.append_assoc] at same
    obtain ⟨keys, tails⟩ := reads.2.1 otherKey right.2.1 _ _ (behind_arrow _) (behind_arrow _) same
    injection tails with _ tails
    injection tails with _ tails
    obtain ⟨values, tails⟩ := reads.1 other right.1 _ _ (behind_of_slotEnd ends _)
      (behind_of_slotEnd otherEnds _) tails
    injection tails with first rest
    exact ⟨sameUpToFloats_arrayElem values keys, first, rest⟩

/-- The children of an array with these slots, from position `k` on. -/
def Slot.children (slots : List Slot) (k : Nat) : List (String × Value) :=
  ((slots.map Slot.element?).zipIdx k).map fun (slot, i) => (toString i, Node.ofSlot slot)

theorem Slot.childrenSame_cons {slot other : Slot} {slots others : List Slot} {k : Nat}
    (first : (Node.ofSlot slot.element?).sameUpToFloats (Node.ofSlot other.element?))
    (more : childrenSameUpToFloats (Slot.children slots (k + 1)) (Slot.children others (k + 1))) :
    childrenSameUpToFloats (Slot.children (slot :: slots) k)
      (Slot.children (other :: others) k) := by
  show childrenSameUpToFloats
    ((toString k, Node.ofSlot slot.element?) :: Slot.children slots (k + 1))
    ((toString k, Node.ofSlot other.element?) :: Slot.children others (k + 1))
  simp [childrenSameUpToFloats, childSameUpToFloats, first, more]

/-- **Slots are read one way** up to the end of the array, if there are any. -/
theorem Slot.children_sameUpToFloats {slots others : List Slot}
    (reads : ∀ slot ∈ slots, slot.All Value.ReadsOneWay)
    (left : ∀ slot ∈ slots, slot.All Value.IsArrayLiteral)
    (right : ∀ slot ∈ others, slot.All Value.IsArrayLiteral)
    (nonempty : slots ≠ []) (otherNonempty : others ≠ [])
    {closing : Char} (closes : closing ∈ [']', ')']) {rest behind : List Char}
    (same : slotsShown slots ++ closing :: rest = slotsShown others ++ closing :: behind)
    (k : Nat) :
    childrenSameUpToFloats (Slot.children slots k) (Slot.children others k) ∧ rest = behind := by
  have ends : closing ∈ [',', ']', ')'] := List.mem_cons_of_mem _ closes
  have comma : closing ≠ ',' := by
    rintro rfl
    exact absurd closes (by decide)
  induction slots generalizing others k with
  | nil => exact absurd rfl nonempty
  | cons slot slots ih =>
    cases others with
    | nil => exact absurd rfl otherNonempty
    | cons other others =>
      have slotReads := reads slot List.mem_cons_self
      have slotLeft := left slot List.mem_cons_self
      have otherRight := right other List.mem_cons_self
      cases slots with
      | nil =>
        rw [slotsShown_singleton] at same
        cases others with
        | nil =>
          rw [slotsShown_singleton] at same
          obtain ⟨first, _, rest⟩ := Slot.readsOneWay slotReads slotLeft otherRight ends ends same
          exact ⟨childrenSame_cons first rfl, rest⟩
        | cons otherSecond others =>
          rw [slotsShown_cons_cons, List.append_assoc] at same
          obtain ⟨_, mark, _⟩ :=
            Slot.readsOneWay slotReads slotLeft otherRight ends (by decide) same
          exact absurd mark comma
      | cons second slots =>
        rw [slotsShown_cons_cons, List.append_assoc] at same
        cases others with
        | nil =>
          rw [slotsShown_singleton] at same
          obtain ⟨_, mark, _⟩ :=
            Slot.readsOneWay slotReads slotLeft otherRight (by decide) ends same
          exact absurd mark.symm comma
        | cons otherSecond others =>
          rw [slotsShown_cons_cons, List.append_assoc] at same
          obtain ⟨first, _, tails⟩ :=
            Slot.readsOneWay slotReads slotLeft otherRight (by decide) (by decide) same
          obtain ⟨more, rest⟩ := ih (fun s mem => reads s (List.mem_cons_of_mem _ mem))
            (fun s mem => left s (List.mem_cons_of_mem _ mem))
            (fun s mem => right s (List.mem_cons_of_mem _ mem)) (List.cons_ne_nil _ _)
            (List.cons_ne_nil _ _) tails (k + 1)
          exact ⟨childrenSame_cons first more, rest⟩

/-- Slots other than a single empty one begin like no end of an array. -/
theorem Slot.slotsShown_head {slots : List Slot}
    (literals : ∀ slot ∈ slots, slot.All Value.IsArrayLiteral) (nonempty : slots ≠ [])
    (notOneEmpty : slots ≠ [none]) : ∃ c text, slotsShown slots = c :: text ∧ c ∉ [']', ')'] := by
  cases slots with
  | nil => exact absurd rfl nonempty
  | cons first slots =>
    cases first with
    | none =>
      cases slots with
      | nil => exact absurd rfl notOneEmpty
      | cons second slots =>
        rw [slotsShown_cons_cons, Slot.shown_none]
        exact ⟨_, _, rfl, by decide⟩
    | some entry =>
      obtain ⟨c, text, shown, outside⟩ := Slot.shown_head (literals (some entry) List.mem_cons_self)
      have notEnd : c ∉ [']', ')'] := fun mem =>
        outside (List.mem_cons_of_mem _ (List.mem_append_left ['='] mem))
      cases slots with
      | nil => exact ⟨c, text, by rw [slotsShown_singleton, shown], notEnd⟩
      | cons second slots => exact ⟨c, _, by rw [slotsShown_cons_cons, shown]; rfl, notEnd⟩

/-- Slots that may be none at all are read one way too, as long as a single slot is not empty. -/
theorem Slot.children_sameUpToFloats_of_ne {slots others : List Slot}
    (reads : ∀ slot ∈ slots, slot.All Value.ReadsOneWay)
    (left : ∀ slot ∈ slots, slot.All Value.IsArrayLiteral)
    (right : ∀ slot ∈ others, slot.All Value.IsArrayLiteral)
    (notOneEmpty : slots ≠ [none]) (otherNotOneEmpty : others ≠ [none])
    {closing : Char} (closes : closing ∈ [']', ')']) {rest behind : List Char}
    (same : slotsShown slots ++ closing :: rest = slotsShown others ++ closing :: behind) :
    childrenSameUpToFloats (Slot.children slots 0) (Slot.children others 0) ∧ rest = behind := by
  by_cases nonempty : slots = []
  · by_cases otherNonempty : others = []
    · subst nonempty otherNonempty
      injection same with _ tails
      exact ⟨rfl, tails⟩
    · obtain ⟨c, text, shown, outside⟩ :=
        Slot.slotsShown_head right otherNonempty otherNotOneEmpty
      rw [nonempty, shown] at same
      injection same with first
      exact absurd (first ▸ closes) outside
  · by_cases otherNonempty : others = []
    · obtain ⟨c, text, shown, outside⟩ := Slot.slotsShown_head left nonempty notOneEmpty
      rw [otherNonempty, shown] at same
      injection same with first
      exact absurd (first ▸ closes) outside
    · exact Slot.children_sameUpToFloats reads left right nonempty otherNonempty closes same 0

/-! ## Array literals are read one way -/

/-- **No array literal begins what another shows**, and none is shown like another, except for
doubles with the same literal. -/
theorem Value.IsArrayLiteral.readsOneWay {v : Value} (literal : v.IsArrayLiteral) :
    v.ReadsOneWay := by
  induction literal with
  | scalar hasLiteral => exact readsOneWay_of_literal hasLiteral
  | @array form slots notLong notOneEmpty values keys keysNotNull valuesRead keysRead =>
    intro w otherLiteral rest behind restBehind otherBehind same
    have left := Slot.all_of values keys keysNotNull
    have marks := mark?_eq (.array notLong notOneEmpty values keys keysNotNull) otherLiteral
      restBehind otherBehind same
    cases otherLiteral with
    | scalar hasLiteral => exact absurd marks.symm (mark?_ne_of_literal hasLiteral _)
    | @array otherForm others otherNotLong otherNotOneEmpty values' keys' keysNotNull' =>
      have forms : form = otherForm := by
        rw [mark?, mark?, Node.array_eq, Node.array_eq, ArrayForm.ofFlags_flags,
          ArrayForm.ofFlags_flags] at marks
        rcases notLong with rfl | rfl <;> rcases otherNotLong with rfl | rfl <;>
          first | rfl | cases marks
      subst forms
      have closes : form.closing ∈ [']', ')'] := by cases form <;> decide
      rw [shown_array, shown_array, List.append_assoc, List.append_assoc, List.append_assoc,
        List.append_assoc] at same
      obtain ⟨children, tails⟩ := Slot.children_sameUpToFloats_of_ne
        (Slot.all_of valuesRead keysRead keysNotNull) left
        (Slot.all_of values' keys' keysNotNull') notOneEmpty otherNotOneEmpty closes
        (List.append_cancel_left same)
      refine ⟨?_, tails⟩
      rw [Node.array_eq, Node.array_eq]
      simp only [sameUpToFloats, Node.sameUpToFloats, beq_self_eq_true, Bool.true_and]
      exact children

/-- **Array literals are shown unambiguously.** Two array literals with the same short form are the
same tree up to doubles with the same literal. Without the condition on single slots this fails. -/
theorem Value.shortForm_unambiguous :
    (∀ v w : Value, v.IsArrayLiteral → w.IsArrayLiteral → v.shortForm = w.shortForm →
      v.sameUpToFloats w) ∧
    (Node.array .short []).shortForm = "[]" ∧ (Node.array .short [none]).shortForm = "[]" ∧
    ¬ (Node.array .short []).sameUpToFloats (.array .short [none]) := by
  refine ⟨fun v w left right same => ?_, ?_, ?_, by decide⟩
  · have shown : v.shown ++ [] = w.shown ++ [] := by rw [Value.shown, Value.shown, same]
    exact (left.readsOneWay w right [] [] behind_nil behind_nil shown).1
  · exact Printer.render_builtArray {} rfl .short []
  · exact Printer.render_builtArray {} rfl .short [none]

/-- Two arrays with an empty slot and a key that is an array, in which a string is full of marks.
Their doubles are different NaNs. -/
theorem Value.shortForm_unambiguous_nan :
    let key : Value := .node (.array .list [some (.arrayElem (.string "',=>]") none)])
    let tree (bits : UInt64) : Value :=
      .node (.array .short [none, some (.arrayElem (.float ⟨bits⟩) (some key))])
    (tree 0x7ff8000000000000).shortForm = "[,list('\\',=>]')=>NAN]" ∧
      (tree 0x7ff8000000000000).sameUpToFloats (tree 0xfff8000000000000) := by
  intro key tree
  have keyLiteral : key.IsArrayLiteral := by
    refine @IsArrayLiteral.array .list [some (.string "',=>]", none)] (.inr rfl) nofun ?_ ?_ ?_
    · intro value key mem
      obtain ⟨rfl, rfl⟩ : value = _ ∧ key = none := by simpa using mem
      exact .scalar rfl
    · intro value key mem
      simp at mem
    · intro value key mem
      simp at mem
  have literal (bits : UInt64) : (tree bits).IsArrayLiteral := by
    refine @IsArrayLiteral.array .short [none, some (.float ⟨bits⟩, some key)] (.inl rfl) nofun
      ?_ ?_ ?_
    · intro value key mem
      obtain ⟨rfl, rfl⟩ : value = _ ∧ key = _ := by simpa using mem
      exact .scalar rfl
    · intro value key mem
      obtain ⟨rfl, rfl⟩ : value = _ ∧ key = _ := by simpa using mem
      exact keyLiteral
    · intro value key mem
      obtain ⟨rfl, rfl⟩ : value = _ ∧ key = _ := by simpa using mem
      nofun
  exact ⟨by decide +kernel, shortForm_unambiguous.1 _ _ (literal _) (literal _) (by decide +kernel)⟩

end ShortForm
