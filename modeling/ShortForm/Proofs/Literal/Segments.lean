import Mathlib.Logic.ExistsUnique
import ShortForm.Proofs.Literal

/-!
# The literal of a string, read as an expression

The grammar that the literal of a string is read by, apart from the function that writes it. An
expression is a sequence of segments with a dot between them, blanks around it. A segment stands
between single quotes, where a backslash makes a backslash or a quote of what follows it and every
other character stands for itself, or it is one of three escapes between double quotes.

A text is read as one expression at most (`SpellsSegments.unique`), because the quotes of a segment
close at the first quote that no backslash stands in front of. The literal of a string is read as
one, its segments make up the string again, and it stands on one line
(`existsUnique_segments_string`). What the string holds does not matter, not even if it is itself
the text of a literal.
-/

namespace ShortForm.Literal

/-! ## The grammar -/

/-- What stands between single quotes for these characters. -/
inductive SpellsQuoted : List Char → List Char → Prop where
  | nil : SpellsQuoted [] []
  | backslash {s t : List Char} : SpellsQuoted s t → SpellsQuoted ('\\' :: s) ('\\' :: '\\' :: t)
  | quote {s t : List Char} : SpellsQuoted s t → SpellsQuoted ('\'' :: s) ('\\' :: '\'' :: t)
  | plain {c : Char} {s t : List Char} : c ≠ '\\' → c ≠ '\'' → SpellsQuoted s t →
      SpellsQuoted (c :: s) (c :: t)

/-- The characters that are escaped between double quotes. -/
inductive Escape where
  | zero | lineFeed | carriageReturn
  deriving DecidableEq

namespace Escape

/-- The character that an escape stands for. -/
def value : Escape → Char
  | zero => '\x00'
  | lineFeed => '\n'
  | carriageReturn => '\r'

/-- The letter behind the backslash. -/
def letter : Escape → Char
  | zero => '0'
  | lineFeed => 'n'
  | carriageReturn => 'r'

theorem letter_injective {e f : Escape} (same : e.letter = f.letter) : e = f := by
  cases e <;> cases f <;> first | rfl | exact absurd same (by decide)

end Escape

/-- A segment of a string. -/
inductive Segment where
  /-- Characters between single quotes. -/
  | single (characters : List Char)
  /-- One escape between double quotes. -/
  | double (escape : Escape)
  deriving DecidableEq

/-- The characters that a segment stands for. -/
def Segment.value : Segment → List Char
  | single characters => characters
  | double escape => [escape.value]

/-- The text is that of the segment. -/
inductive Segment.Spells : Segment → List Char → Prop where
  | single {s t : List Char} : SpellsQuoted s t → Spells (.single s) ('\'' :: (t ++ ['\'']))
  | double (e : Escape) : Spells (.double e) ['"', '\\', e.letter, '"']

/-- The text is that of these segments, with dots between them. -/
inductive SpellsSegments : List Segment → List Char → Prop where
  | last {g : Segment} {t : List Char} : g.Spells t → SpellsSegments [g] t
  | more {g : Segment} {gs : List Segment} {t u : List Char} : g.Spells t → SpellsSegments gs u →
      SpellsSegments (g :: gs) (t ++ (" . ".toList ++ u))

/-! ## Reading in one way only -/

/-- Characters between single quotes end at the first quote without a backslash. -/
theorem SpellsQuoted.unique {s s' t t' rest rest' : List Char} (spells : SpellsQuoted s t)
    (spells' : SpellsQuoted s' t') (same : t ++ '\'' :: rest = t' ++ '\'' :: rest') :
    s = s' ∧ rest = rest' := by
  induction spells generalizing s' t' with
  | nil =>
    cases spells' with
    | nil => exact ⟨rfl, (List.cons.inj same).2⟩
    | backslash _ | quote _ => simp at same
    | plain _ notQuote _ => exact absurd (List.cons.inj same).1.symm notQuote
  | backslash _ ih =>
    cases spells' with
    | nil | quote _ => simp at same
    | backslash spells' =>
      obtain ⟨rfl, ends⟩ := ih spells' (by simpa using same)
      exact ⟨rfl, ends⟩
    | plain notBackslash _ _ => exact absurd (List.cons.inj same).1.symm notBackslash
  | quote _ ih =>
    cases spells' with
    | nil | backslash _ => simp at same
    | quote spells' =>
      obtain ⟨rfl, ends⟩ := ih spells' (by simpa using same)
      exact ⟨rfl, ends⟩
    | plain notBackslash _ _ => exact absurd (List.cons.inj same).1.symm notBackslash
  | plain notBackslash notQuote _ ih =>
    cases spells' with
    | nil => exact absurd (List.cons.inj same).1 notQuote
    | backslash _ | quote _ => exact absurd (List.cons.inj same).1 notBackslash
    | plain _ _ spells' =>
      obtain ⟨rfl, later⟩ := List.cons.inj same
      obtain ⟨rfl, ends⟩ := ih spells' later
      exact ⟨rfl, ends⟩

/-- A segment is told by its quotes and ends with them. -/
theorem Segment.Spells.unique {g g' : Segment} {t t' rest rest' : List Char} (spells : g.Spells t)
    (spells' : g'.Spells t') (same : t ++ rest = t' ++ rest') : g = g' ∧ rest = rest' := by
  cases spells with
  | single quoted =>
    cases spells' with
    | single quoted' =>
      obtain ⟨rfl, ends⟩ := quoted.unique quoted' (by simpa using same)
      exact ⟨rfl, ends⟩
    | double e => simp at same
  | double e =>
    cases spells' with
    | single quoted' => simp at same
    | double f =>
      obtain ⟨letters, ends⟩ : e.letter = f.letter ∧ rest = rest' := by simpa using same
      exact ⟨congrArg Segment.double (Escape.letter_injective letters), ends⟩

/-- **A text is that of one sequence of segments at most.** -/
theorem SpellsSegments.unique {gs hs : List Segment} {t : List Char} (spells : SpellsSegments gs t)
    (spells' : SpellsSegments hs t) : gs = hs := by
  induction spells generalizing hs with
  | last here =>
    cases spells' with
    | last here' =>
      obtain ⟨rfl, -⟩ : _ ∧ ([] : List Char) = [] := here.unique here' rfl
      rfl
    | more here' later' => exact absurd (here.unique here' (List.append_nil _)).2 (by simp)
  | @more g gs t u here later ih =>
    generalize whole : t ++ (" . ".toList ++ u) = text at spells'
    cases spells' with
    | last here' =>
      exact absurd (here.unique here' (whole.trans (List.append_nil _).symm)).2 (by simp)
    | more here' later' =>
      obtain ⟨rfl, ends⟩ := here.unique here' whole
      exact congrArg _ (ih (List.append_cancel_left ends ▸ later'))

/-! ## The literal of a string -/

/-- What stands in front of the characters of the first segment, between the same quotes, belongs
to it. -/
theorem SpellsSegments.in_front {front s s' t : List Char} {gs : List Segment}
    (grows : ∀ u, SpellsQuoted s u → SpellsQuoted s' (front ++ u))
    (spells : SpellsSegments (.single s :: gs) ('\'' :: t)) :
    SpellsSegments (.single s' :: gs) ('\'' :: (front ++ t)) := by
  generalize text : '\'' :: t = whole at spells
  cases spells with
  | last here =>
    obtain ⟨quoted⟩ := here
    obtain rfl := (List.cons.inj text).2
    have spelled := SpellsSegments.last (Segment.Spells.single (grows _ quoted))
    rwa [List.append_assoc] at spelled
  | @more _ _ _ more here later =>
    obtain @⟨_, u, quoted⟩ := here
    have behind : t = u ++ ['\''] ++ (" . ".toList ++ more) := (List.cons.inj text).2
    have spelled := SpellsSegments.more (Segment.Spells.single (grows u quoted)) later
    rw [behind, List.append_assoc u, ← List.append_assoc front]
    rwa [List.cons_append, List.append_assoc] at spelled

/-- An escape closes the single quotes and opens them again. -/
theorem SpellsSegments.escape (e : Escape) {gs : List Segment} {t : List Char}
    (spells : SpellsSegments gs t) :
    SpellsSegments (.single [] :: .double e :: gs)
      ('\'' :: ('\'' :: (" . ".toList ++ ['"', '\\', e.letter, '"'] ++ " . ".toList ++ t))) := by
  simpa using SpellsSegments.more (.single .nil) (.more (.double e) spells)

/-- Between single quotes, the text is read as segments that make up the string. The first of them
begins with the text, so that characters can be put in front of it. -/
def MakesUp (t s : List Char) : Prop :=
  ∃ characters gs, SpellsSegments (.single characters :: gs) ('\'' :: (t ++ ['\''])) ∧
    characters ++ gs.flatMap Segment.value = s

namespace MakesUp

variable {s t : List Char}

/-- A character that stands inside the first segment. -/
theorem inside {c : Char} {front : List Char} (makes : MakesUp t s)
    (grows : ∀ {s u}, SpellsQuoted s u → SpellsQuoted (c :: s) (front ++ u)) :
    MakesUp (front ++ t) (c :: s) := by
  obtain ⟨characters, gs, spells, value⟩ := makes
  refine ⟨c :: characters, gs, ?_, by rw [List.cons_append, value]⟩
  rw [List.append_assoc]
  exact spells.in_front fun _ => grows

/-- A character that is escaped begins a segment of its own. -/
theorem escaped (e : Escape) (makes : MakesUp t s) :
    MakesUp ('\'' :: (" . ".toList ++ ['"', '\\', e.letter, '"'] ++ " . '".toList) ++ t)
      (e.value :: s) := by
  obtain ⟨characters, gs, spells, value⟩ := makes
  refine ⟨[], .double e :: .single characters :: gs, by simpa using spells.escape e, ?_⟩
  simp [Segment.value, ← value]

end MakesUp

/-- The quoted characters of a string make it up. -/
theorem makesUp_flatMap_quoted (s : List Char) : MakesUp (s.flatMap quoted) s := by
  induction s with
  | nil => exact ⟨[], [], .last (.single .nil), rfl⟩
  | cons c s ih =>
    rw [List.flatMap_cons]
    by_cases backslash : c = '\\'
    · subst backslash
      exact ih.inside .backslash
    by_cases quote : c = '\''
    · subst quote
      exact ih.inside .quote
    by_cases zero : c = '\x00'
    · subst zero
      exact ih.escaped .zero
    by_cases lineFeed : c = '\n'
    · subst lineFeed
      exact ih.escaped .lineFeed
    by_cases carriageReturn : c = '\r'
    · subst carriageReturn
      exact ih.escaped .carriageReturn
    · have itself : quoted c = [c] := by
        unfold quoted
        split <;> simp_all
      rw [itself]
      exact ih.inside (.plain backslash quote)

/-- **The literal of a string evaluates to the string.** It is read as segments in exactly one way,
the segments make up the string, and none of the characters that break a line is in it. -/
theorem existsUnique_segments_string (s : String) :
    (∃! segments, SpellsSegments segments (string s).toList) ∧
      (∃ segments, SpellsSegments segments (string s).toList ∧
        String.ofList (segments.flatMap Segment.value) = s) ∧
      '\x00' ∉ (string s).toList ∧ '\r' ∉ (string s).toList ∧ '\n' ∉ (string s).toList := by
  have single (c : Char) (breaks : breaksLine c) : c ∉ (string s).toList := fun mem =>
    absurd breaks (Bool.eq_false_iff.mp (breaksLine_of_mem_string mem))
  obtain ⟨characters, gs, spells, value⟩ := makesUp_flatMap_quoted s.toList
  have text : (string s).toList = '\'' :: (s.toList.flatMap quoted ++ ['\'']) := by
    rw [string, String.toList_ofList]
  rw [← text] at spells
  refine ⟨⟨_, spells, fun _ other => other.unique spells⟩, ⟨_, spells, ?_⟩,
    single _ (by decide), single _ (by decide), single _ (by decide)⟩
  rw [List.flatMap_cons, Segment.value, value, String.ofList_toList]

/-- The literal of a text that looks like a splice, with a backslash at its end. -/
example : string "' . \"\\n\" . '\n\\" = "'\\' . \"\\\\n\" . \\'' . \"\\n\" . '\\\\'" := by
  decide

end ShortForm.Literal
