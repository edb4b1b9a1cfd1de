import ShortForm.Proofs.Printer.Piece

/-!
# Printing comes to an end

A printer goes back and forth between values and renderers: a renderer is found under the kind of a
node, and what it says makes the printer turn to other values. Here this is played round by round,
on pieces, which carry no evidence of where their values come from (`Printer.renderWithin`). A round
that is out of turns has no text, so nothing of the kind of a short form is taken for granted.

Whatever renderers a registry holds, and under whatever kinds, a step only turns to values strictly
inside the one that it starts from. So there is no endless chain of turns, and for every value there
are rounds enough: from then on there is a text, and it is the short form.
-/

namespace ShortForm

/-- The value whose text stands for the piece. -/
def Piece.value? : Piece → Option Value
  | value v => some v
  | _ => none

/-- The values that a step of printing turns to. -/
def Registry.turns (r : Registry) (v : Value) : List Value := (r.pieces v).filterMap Piece.value?

namespace Registry

theorem mem_turns_iff {r : Registry} {v w : Value} :
    w ∈ r.turns v ↔ .value w ∈ r.pieces v := by
  rw [turns, List.mem_filterMap]
  constructor
  · rintro ⟨piece, mem, asks⟩
    cases piece with
    | value v =>
      cases asks
      exact mem
    | _ => cases asks
  · exact fun mem => ⟨_, mem, rfl⟩

/-- No chain of turns is endless. -/
theorem wellFounded_turns (r : Registry) : WellFounded fun w v => w ∈ r.turns v :=
  Subrelation.wf (fun turn => sizeOf_lt_of_mem_pieces (mem_turns_iff.mp turn))
    (measure sizeOf).wf

end Registry

namespace Printer

variable (p : Printer)

/-- The text of a piece, if the values are given theirs in some way. -/
def pieceTextBy (text? : Value → Option String) : Piece → Option String
  | .text s => some s
  | .hole => some p.placeholder
  | .value v => text? v

/-- The text of a value, if there is one within this number of rounds. -/
def renderWithin : Nat → Value → Option String
  | 0, _ => none
  | rounds + 1, v =>
    ((p.registry.pieces v).mapM (p.pieceTextBy (renderWithin rounds))).map String.join

theorem mapM_pieceTextBy {text? : Value → Option String} {pieces : List Piece}
    (given : ∀ v, .value v ∈ pieces → text? v = some (p.render v)) :
    pieces.mapM (p.pieceTextBy text?) = some (pieces.map p.pieceText) := by
  induction pieces with
  | nil => rfl
  | cons piece pieces ih =>
    have first : p.pieceTextBy text? piece = some (p.pieceText piece) := by
      cases piece with
      | value v => exact given v List.mem_cons_self
      | _ => rfl
    rw [List.mapM_cons, first, ih fun v mem => given v (List.mem_cons_of_mem _ mem)]
    rfl

/-- Rounds beyond the size of the value are enough, and more do no harm. -/
theorem renderWithin_of_sizeOf_lt {rounds : Nat} {v : Value} (enough : sizeOf v < rounds) :
    p.renderWithin rounds v = some (p.render v) := by
  induction rounds generalizing v with
  | zero => omega
  | succ rounds ih =>
    rw [renderWithin, mapM_pieceTextBy, Option.map_some, render_eq, piecesText]
    intro w turn
    have smaller := Registry.sizeOf_lt_of_mem_pieces turn
    exact ih (by omega)

end Printer

/-- **Printing comes to an end.** Whatever renderers a registry holds, and under whatever kinds: for
the text of a node it only turns to values strictly inside the node, for that of a list to the nodes
in its slots; no chain of turns is endless; and for every value the rounds give a text from some
round on, which is the short form. -/
theorem Registry.printing_terminates (r : Registry) :
    (∀ n : Node, ∀ v ∈ r.turns (.node n), v.Inside n) ∧
    (∀ slots, ∀ v ∈ r.turns (.list slots), ∃ m, some m ∈ slots ∧ v = .node m) ∧
    (WellFounded fun w v => w ∈ r.turns v) ∧
    ∀ (options : Options) (v : Value), ∃ text, ∃ rounds, ∀ more,
      Printer.renderWithin ⟨r, options⟩ (rounds + more) v = some text ∧
        text = Printer.render ⟨r, options⟩ v := by
  refine ⟨fun n v turn => inside_of_mem_pieces (mem_turns_iff.mp turn),
    fun slots v turn => slot_of_mem_pieces (mem_turns_iff.mp turn), r.wellFounded_turns,
    fun options v => ?_⟩
  refine ⟨Printer.render ⟨r, options⟩ v, sizeOf v + 1, fun more => ⟨?_, rfl⟩⟩
  exact Printer.renderWithin_of_sizeOf_lt ⟨r, options⟩ (by omega)

/-- A registry that shows elements as arrays, unknown nodes as constants and names as class
constants. -/
theorem Registry.printing_terminates_swapped :
    let inner : Node := ⟨.unknown, .zero, 0, [("name", .node (.name "A" .bare))]⟩
    let tree : Node := ⟨.arrayElem, .zero, 0, [("0", .list [none, some inner])]⟩
    let r : Registry := ⟨fun kind =>
      if kind = .name then some .classConst
      else if kind = .unknown then some .constant
      else if kind = .arrayElem then some .array
      else none⟩
    Registry.empty.registerAll
        [(.arrayElem, .array), (.unknown, .constant), (.name, .classConst)] = .ok r ∧
      .node inner ∈ r.turns (.node tree) ∧ (Value.node inner).Inside tree ∧
      ∃ rounds, ∀ more,
        Printer.renderWithin ⟨r, {}⟩ (rounds + more) (.node tree) =
          some "[,(unknown)::(unknown)]" := by
  intro inner tree r
  have turn : .node inner ∈ r.turns (.node tree) := List.mem_singleton_self _
  obtain ⟨text, rounds, shown⟩ := r.printing_terminates.2.2.2 {} (.node tree)
  refine ⟨rfl, turn, r.printing_terminates.1 tree (.node inner) turn, rounds, fun more => ?_⟩
  rw [(shown more).1, (shown more).2]
  decide +kernel

end ShortForm
