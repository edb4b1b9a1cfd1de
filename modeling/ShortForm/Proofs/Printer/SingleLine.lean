import ShortForm.Proofs.Literal
import ShortForm.Proofs.Printer.Skeleton

/-!
# Short forms on one line

A name and the name of a class constant are shown as they are, and so is the placeholder. Everything
else that is shown is free of the characters that would break a line: the layout, and the literals
of scalars, strings among them. So a short form holds such a character just when one of the texts
holds it that are shown as they are, and it stands on one line just when they all do
(`Printer.isSingleLine_render_iff`).
-/

namespace ShortForm

open Piece

/-! ## Nodes that are shown -/

/-- The text that a node shows as it is. -/
def Node.rawText? (n : Node) : Option String :=
  match n.kind with
  | .name => n.childString? "name"
  | .classConst => n.childString? "const"
  | _ => none

/-- While the value is shown, so is the node, each by the renderer of its kind. -/
inductive Value.Shows : Value → Node → Prop where
  | self {n : Node} : Shows (.node n) n
  | listSlot {slots : List (Option Node)} {m k : Node} (mem : some m ∈ slots)
      (shows : Shows (.node m) k) : Shows (.list slots) k
  | constName {n m k : Node} (kind : n.kind = .const) (found : n.child? "name" = some (.node m))
      (shows : Shows (.node m) k) : Shows (.node n) k
  | owner {n m k : Node} (kind : n.kind = .classConst)
      (found : n.child? "class" = some (.node m)) (shows : Shows (.node m) k) : Shows (.node n) k
  | arraySlot {n k : Node} {v : Value} (kind : n.kind = .array) (mem : v ∈ n.slots)
      (notElement : ∀ m, v = .node m → m.kind ≠ .arrayElem) (shows : Shows v k) : Shows (.node n) k
  | elementValue {n m k : Node} {v : Value} (kind : n.kind = .array) (mem : .node m ∈ n.slots)
      (element : m.kind = .arrayElem) (found : m.child? "value" = some v) (shows : Shows v k) :
      Shows (.node n) k
  | elementKey {n m k : Node} {key : Value} (kind : n.kind = .array) (mem : .node m ∈ n.slots)
      (element : m.kind = .arrayElem) (found : m.child? "key" = some key) (shows : Shows key k) :
      Shows (.node n) k

namespace Value.Shows

variable {v w : Value} {k : Node}

/-- What a slot of an array turns to is shown with the array. -/
theorem of_mem_slot {n : Node} (kind : n.kind = .array) {slot : Value} (mem : slot ∈ n.slots)
    (turns : .value w ∈ ofArraySlot slot) (shows : w.Shows k) : Shows (.node n) k := by
  cases slot with
  | null => cases turns
  | node m =>
    by_cases element : m.kind = .arrayElem
    · rw [ofArraySlot_element element, value_mem_ofElement_iff] at turns
      rcases turns with found | ⟨found, _⟩
      · exact .elementValue kind mem element found shows
      · exact .elementKey kind mem element found shows
    · rw [ofArraySlot_node element, List.mem_singleton] at turns
      cases turns
      exact .arraySlot kind mem (fun m same => by cases same; exact element) shows
  | _ =>
    cases List.mem_singleton.mp turns
    exact .arraySlot kind mem nofun shows

/-- What a step turns to is shown with the value. -/
theorem of_mem_pieces (turns : .value w ∈ Registry.standard.pieces v) (shows : w.Shows k) :
    v.Shows k := by
  cases v with
  | node n =>
    rcases Registry.standard_cases n.kind with kind | kind | kind | kind | noRenderer
    · simp [Registry.pieces_of_name kind] at turns
    · simp only [Registry.pieces_of_const kind, List.mem_singleton, value_eq_ofValue?_iff,
        Option.map_eq_some_iff, Node.childNode?_eq_some] at turns
      obtain ⟨m, found, rfl⟩ := turns
      exact .constName kind found shows
    · simp only [Registry.pieces_of_classConst kind, List.mem_cons, value_eq_ofValue?_iff,
        Option.map_eq_some_iff, Node.childNode?_eq_some, value_ne_ofString?, List.not_mem_nil,
        reduceCtorEq, or_false] at turns
      obtain ⟨m, found, rfl⟩ := turns
      exact .owner kind found shows
    · rw [Registry.pieces_of_array kind, mem_bracketed (by simp)] at turns
      obtain ⟨_, mapped, turns⟩ := turns
      obtain ⟨slot, mem, rfl⟩ := List.mem_map.mp mapped
      exact of_mem_slot kind mem turns shows
    · simp [Registry.pieces_of_find?_eq_none noRenderer] at turns
  | list slots =>
    obtain ⟨m, mem, rfl⟩ := Registry.slot_of_mem_pieces turns
    exact .listSlot mem shows
  | _ => simp [Registry.pieces, ofString?, literal?] at turns

/-- What is shown with the value is the value itself, or a step turns to what it is shown with. -/
theorem cases_pieces (shows : v.Shows k) :
    v = .node k ∨ ∃ w, .value w ∈ Registry.standard.pieces v ∧ w.Shows k := by
  have inArray {n : Node} (kind : n.kind = .array) {slot w : Value} (mem : slot ∈ n.slots)
      (turns : .value w ∈ ofArraySlot slot) : .value w ∈ Registry.standard.pieces (.node n) := by
    rw [Registry.pieces_of_array kind, mem_bracketed (by simp)]
    exact ⟨_, List.mem_map_of_mem mem, turns⟩
  cases shows with
  | self => exact .inl rfl
  | @listSlot slots m _ mem shows =>
    refine .inr ⟨.node m, ?_, shows⟩
    rw [Registry.pieces, mem_bracketed (by simp)]
    exact ⟨_, List.mem_map_of_mem mem, List.mem_singleton_self _⟩
  | constName kind found shows =>
    refine .inr ⟨_, ?_, shows⟩
    rw [Registry.pieces_of_const kind, Node.childNode?_eq_some.mpr found]
    exact List.mem_singleton_self _
  | owner kind found shows =>
    refine .inr ⟨_, ?_, shows⟩
    rw [Registry.pieces_of_classConst kind, Node.childNode?_eq_some.mpr found]
    exact List.mem_cons_self
  | @arraySlot n _ w kind mem notElement shows =>
    refine .inr ⟨w, inArray kind mem ?_, shows⟩
    cases w with
    | null => cases shows
    | node m => rw [ofArraySlot_node (notElement m rfl), List.mem_singleton]
    | _ => exact List.mem_singleton_self _
  | elementValue kind mem element found shows =>
    refine .inr ⟨_, inArray kind mem ?_, shows⟩
    rw [ofArraySlot_element element, value_mem_ofElement_iff]
    exact .inl found
  | elementKey kind mem element found shows =>
    refine .inr ⟨_, inArray kind mem ?_, shows⟩
    rw [ofArraySlot_element element, value_mem_ofElement_iff]
    exact .inr ⟨found, fun null => by subst null; cases shows⟩

end Value.Shows

/-! ## Texts that are shown -/

/-- The texts that short forms are laid out with. -/
def layoutTexts : List String :=
  ["", "\\", "namespace\\", "::", "[", "]", "list(", ")", ",", "=>", "null"]

theorem Piece.text_mem_bracketed {brackets : String × String} {slots : List (List Piece)}
    {s : String} (mem : text s ∈ bracketed brackets slots) :
    s ∈ [brackets.1, ",", brackets.2] ∨ ∃ slot ∈ slots, text s ∈ slot := by
  by_cases outer : s ∈ [brackets.1, ",", brackets.2]
  · exact .inl outer
  · refine .inr ((mem_bracketed ?_).mp mem)
    simpa using outer

@[simp] theorem Piece.text_ne_ofValue? {s : String} {found : Option Value} :
    text s ≠ ofValue? found := by
  cases found <;> simp [ofValue?]

theorem Piece.text_eq_ofString?_iff {s : String} {found : Option String} :
    text s = ofString? found ↔ found = some s := by
  cases found <;> simp [ofString?, eq_comm]

/-- A text in a slot of an array is the arrow behind a key. -/
theorem Piece.text_mem_ofArraySlot {slot : Value} {s : String} (mem : text s ∈ ofArraySlot slot) :
    s = "=>" := by
  have ofKey {found : Option Value} (mem : text s ∈ ofKey? found) : s = "=>" := by
    cases found with
    | none => cases mem
    | some key =>
      cases key with
      | null => cases mem
      | _ => simpa [ofKey?] using mem
  cases slot with
  | null => cases mem
  | node m =>
    by_cases element : m.kind = .arrayElem
    · rw [ofArraySlot_element element, ofElement, List.mem_append, List.mem_singleton] at mem
      exact ofKey (mem.resolve_right text_ne_ofValue?)
    · rw [ofArraySlot_node element, List.mem_singleton] at mem
      cases mem
  | _ => cases List.mem_singleton.mp mem

/-- What a step shows itself is layout, the literal of a scalar, or the text that a node shows as it
is. -/
theorem Registry.text_mem_pieces {v : Value} {s : String} (mem : .text s ∈ standard.pieces v) :
    s ∈ layoutTexts ∨ v.literal? = some s ∨ ∃ n, v = .node n ∧ n.rawText? = some s := by
  cases v with
  | node n =>
    rcases standard_cases n.kind with kind | kind | kind | kind | noRenderer
    · simp only [pieces_of_name kind, List.mem_cons, List.not_mem_nil, or_false,
        Piece.text.injEq, text_eq_ofString?_iff] at mem
      rcases mem with rfl | found
      · left
        cases Qualification.ofFlags n.flags <;> decide
      · exact .inr (.inr ⟨n, rfl, by rw [Node.rawText?, kind, found]⟩)
    · simp [pieces_of_const kind] at mem
    · simp only [pieces_of_classConst kind, List.mem_cons, List.not_mem_nil, or_false,
        text_ne_ofValue?, false_or, Piece.text.injEq, text_eq_ofString?_iff] at mem
      rcases mem with rfl | found
      · exact .inl (by decide)
      · exact .inr (.inr ⟨n, rfl, by rw [Node.rawText?, kind, found]⟩)
    · rw [pieces_of_array kind] at mem
      left
      rcases text_mem_bracketed mem with outer | ⟨_, mapped, mem⟩
      · have brackets (form : ArrayForm) :
            ∀ t ∈ [form.brackets.1, ",", form.brackets.2], t ∈ layoutTexts := by
          cases form <;> decide
        exact brackets _ s outer
      · obtain ⟨slot, _, rfl⟩ := List.mem_map.mp mapped
        rw [text_mem_ofArraySlot mem]
        decide
    · simp [pieces_of_find?_eq_none noRenderer] at mem
  | list slots =>
    left
    rcases text_mem_bracketed mem with outer | ⟨_, mapped, mem⟩
    · exact (by decide : ∀ t ∈ ["[", ",", "]"], t ∈ layoutTexts) s outer
    · obtain ⟨slot, _, rfl⟩ := List.mem_map.mp mapped
      cases slot with
      | none =>
        cases List.mem_singleton.mp mem
        decide
      | some m => cases List.mem_singleton.mp mem
  | _ => exact .inr (.inl (text_eq_ofString?_iff.mp (List.mem_singleton.mp mem)))

/-- The text that a node shows as it is is a piece of it. -/
theorem Registry.rawText_mem_pieces {n : Node} {s : String} (raw : n.rawText? = some s) :
    .text s ∈ standard.pieces (.node n) := by
  unfold Node.rawText? at raw
  split at raw
  · next kind => simp [pieces_of_name kind, raw, ofString?]
  · next kind => simp [pieces_of_classConst kind, raw, ofString?]
  · cases raw

/-! ## Characters that break a line -/

/-- No text of the layout holds a character that breaks the line. -/
theorem breaksLine_of_mem_layout :
    ∀ text ∈ layoutTexts, ∀ c ∈ text.toList, breaksLine c = false := by
  simp [layoutTexts, breaksLine]

theorem Token.mem_fill_iff {placeholder : String} {tokens : List Token} {c : Char} :
    c ∈ (fill placeholder tokens).toList ↔
      (∃ s, text s ∈ tokens ∧ c ∈ s.toList) ∨ hole ∈ tokens ∧ c ∈ placeholder.toList := by
  rw [fill, String.toList_join, List.flatMap_map, List.mem_flatMap]
  constructor
  · rintro ⟨token, mem, holds⟩
    cases token with
    | text s => exact .inl ⟨s, mem, holds⟩
    | hole => exact .inr ⟨mem, holds⟩
  · rintro (⟨s, mem, holds⟩ | ⟨mem, holds⟩)
    · exact ⟨_, mem, holds⟩
    · exact ⟨_, mem, holds⟩

/-- A skeleton holds a character that breaks the line in what it shows as it is, and nowhere
else. -/
theorem Registry.exists_text_mem_skeleton_iff {c : Char} (breaks : breaksLine c) (v : Value) :
    (∃ s, .text s ∈ standard.skeleton v ∧ c ∈ s.toList) ↔
      ∃ n s, v.Shows n ∧ n.rawText? = some s ∧ c ∈ s.toList := by
  induction v using pieces_induction (r := standard) with
  | step v ih =>
    simp only [skeleton_eq standard v, List.mem_flatMap]
    constructor
    · rintro ⟨s, ⟨piece, step, mem⟩, holds⟩
      cases piece with
      | text t =>
        cases List.mem_singleton.mp mem
        rcases text_mem_pieces step with layout | literal | ⟨n, rfl, raw⟩
        · exact absurd breaks (Bool.eq_false_iff.mp (breaksLine_of_mem_layout s layout c holds))
        · exact absurd breaks (Bool.eq_false_iff.mp (v.breaksLine_of_mem_literal literal holds))
        · exact ⟨n, s, .self, raw, holds⟩
      | hole => cases List.mem_singleton.mp mem
      | value w =>
        obtain ⟨n, s, shows, rest⟩ := (ih w step).mp ⟨s, mem, holds⟩
        exact ⟨n, s, .of_mem_pieces step shows, rest⟩
    · rintro ⟨n, s, shows, raw, holds⟩
      rcases shows.cases_pieces with rfl | ⟨w, step, shows⟩
      · exact ⟨s, ⟨_, rawText_mem_pieces raw, List.mem_singleton_self _⟩, holds⟩
      · obtain ⟨s, mem, holds⟩ := (ih w step).mpr ⟨n, s, shows, raw, holds⟩
        exact ⟨s, ⟨_, step, mem⟩, holds⟩

/-- The text stands on one line. -/
def IsSingleLine (text : String) : Prop := ∀ c ∈ ['\n', '\r'], c ∉ text.toList

/-- **A short form is on one line just when what it shows as it is is.** A line feed, a carriage
return or a zero character is in a short form if and only if it is in a name or the name of a class
constant that is shown, or in the placeholder and the placeholder is used. -/
theorem Printer.isSingleLine_render_iff (v : Value) (placeholder : String) :
    (∀ c ∈ ['\n', '\r', '\x00'],
      (c ∈ ((standard placeholder).render v).toList ↔
        (∃ n s, v.Shows n ∧ n.rawText? = some s ∧ c ∈ s.toList) ∨
          Token.hole ∈ Registry.standard.skeleton v ∧ c ∈ placeholder.toList)) ∧
    (IsSingleLine ((standard placeholder).render v) ↔
      (∀ n s, v.Shows n → n.rawText? = some s → IsSingleLine s) ∧
        (Token.hole ∈ Registry.standard.skeleton v → IsSingleLine placeholder)) := by
  have mem_iff : ∀ c ∈ ['\n', '\r', '\x00'], (c ∈ ((standard placeholder).render v).toList ↔
      (∃ n s, v.Shows n ∧ n.rawText? = some s ∧ c ∈ s.toList) ∨
        Token.hole ∈ Registry.standard.skeleton v ∧ c ∈ placeholder.toList) := by
    intro c breaks
    rw [render_standard, Token.mem_fill_iff,
      Registry.exists_text_mem_skeleton_iff (decide_eq_true breaks)]
  refine ⟨mem_iff, ?_⟩
  have feeds : ∀ c ∈ ['\n', '\r'], c ∈ ['\n', '\r', '\x00'] := by simp
  constructor
  · intro single
    refine ⟨fun n s shows raw c mem holds => ?_, fun used c mem holds => ?_⟩
    · exact single c mem ((mem_iff c (feeds c mem)).mpr (.inl ⟨n, s, shows, raw, holds⟩))
    · exact single c mem ((mem_iff c (feeds c mem)).mpr (.inr ⟨used, holds⟩))
  · rintro ⟨raws, placeholderSingle⟩ c mem holds
    rcases (mem_iff c (feeds c mem)).mp holds with ⟨n, s, shows, raw, holds⟩ | ⟨used, holds⟩
    · exact raws n s shows raw c mem holds
    · exact placeholderSingle used c mem holds

/-- A class constant with a carriage return in its name, behind a key with a line feed in it. -/
theorem Printer.isSingleLine_render_iff_key :
    let constant : Node := .classConst (.name "A" .bare) "B\rC"
    let element : Node := ⟨.arrayElem, .zero, 0,
      [("value", .node constant), ("key", .string "a\nb")]⟩
    let tree : Value := .node ⟨.array, .zero, 0, [("0", .node element)]⟩
    '\r' ∈ ['\n', '\r', '\x00'] ∧ '\n' ∈ ['\n', '\r', '\x00'] ∧
      '\r' ∈ ((standard "?").render tree).toList ∧
      ¬ ((∃ n s, tree.Shows n ∧ n.rawText? = some s ∧ '\n' ∈ s.toList) ∨
        Token.hole ∈ Registry.standard.skeleton tree ∧ '\n' ∈ "?".toList) := by
  intro constant element tree
  have shows : tree.Shows constant :=
    .elementValue rfl (List.mem_singleton_self _) rfl rfl .self
  have iff := (isSingleLine_render_iff tree "?").1
  refine ⟨by decide, by decide, ?_, ?_⟩
  · exact (iff '\r' (by decide)).mpr (.inl ⟨constant, "B\rC", shows, rfl, by decide⟩)
  · rw [← iff '\n' (by decide)]
    decide +kernel

end ShortForm
