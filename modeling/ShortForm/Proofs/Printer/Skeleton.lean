import ShortForm.Proofs.Printer.Piece

/-!
# Skeletons

The skeleton of a value is its short form with the holes left open. It goes by the renderers alone,
and the short form is the skeleton with the placeholder in every hole (`Printer.render_eq_fill`): so
the placeholder is put in, and nothing ever looks at it. Whether it is put in at all can be told
from the short forms themselves: they are the same for all placeholders just when the skeleton has
no hole (`Token.fill_eq_fill_iff`).
-/

namespace ShortForm

open Piece

/-- A part of a skeleton. -/
inductive Token where
  /-- This text. -/
  | text (s : String)
  /-- The placeholder goes here. -/
  | hole
  deriving DecidableEq

namespace Token

/-- The text of a token with the placeholder in its place. -/
def fillOne (placeholder : String) : Token → String
  | text s => s
  | hole => placeholder

/-- The text of tokens with the placeholder in every hole. -/
def fill (placeholder : String) (tokens : List Token) : String :=
  String.join (tokens.map (fillOne placeholder))

variable (placeholder : String)

@[simp] theorem fill_nil : fill placeholder [] = "" := rfl

theorem fill_append (before after : List Token) :
    fill placeholder (before ++ after) = fill placeholder before ++ fill placeholder after := by
  rw [fill, fill, fill, List.map_append, String.join_append]

theorem fill_cons (token : Token) (tokens : List Token) :
    fill placeholder (token :: tokens) = fillOne placeholder token ++ fill placeholder tokens := by
  rw [fill, fill, List.map_cons, String.join_cons]

theorem fill_flatMap {α : Type} (f : α → List Token) (list : List α) :
    fill placeholder (list.flatMap f) = String.join (list.map fun a => fill placeholder (f a)) := by
  induction list with
  | nil => rfl
  | cons a list ih => rw [List.flatMap_cons, fill_append, ih, List.map_cons, String.join_cons]

/-- Every hole adds the length of the placeholder. -/
theorem length_fill (tokens : List Token) :
    (fill placeholder tokens).length =
      (fill "" tokens).length + tokens.count hole * placeholder.length := by
  induction tokens with
  | nil => simp
  | cons token tokens ih =>
    rw [fill_cons, fill_cons, String.length_append, String.length_append, ih]
    cases token with
    | text s => simp [fillOne, Nat.add_assoc]
    | hole =>
      simp only [fillOne, List.count_cons_self, Nat.succ_mul, String.length_empty]
      omega

/-- The text is the same for all placeholders just when there is no hole. -/
theorem fill_eq_fill_iff (tokens : List Token) :
    (∀ p q, fill p tokens = fill q tokens) ↔ hole ∉ tokens := by
  constructor
  · intro same
    have lengths := congrArg String.length (same "?" "")
    rw [length_fill] at lengths
    simp only [show "?".length = 1 from rfl] at lengths
    exact List.count_eq_zero.mp (by omega)
  · intro closed p q
    refine congrArg String.join (List.map_congr_left fun token mem => ?_)
    cases token with
    | text s => rfl
    | hole => exact absurd mem closed

end Token

namespace Registry

/-- The short form of a value with its holes left open. -/
def skeleton (r : Registry) (v : Value) : List Token :=
  (r.pieces v).attach.flatMap fun
    | ⟨.text s, _⟩ => [.text s]
    | ⟨.hole, _⟩ => [.hole]
    | ⟨.value w, _⟩ => r.skeleton w
termination_by sizeOf v
decreasing_by exact sizeOf_lt_of_mem_pieces ‹_›

variable (r : Registry)

/-- The tokens of a piece. -/
def tokens : Piece → List Token
  | .text s => [.text s]
  | .hole => [.hole]
  | .value v => r.skeleton v

theorem skeleton_eq (v : Value) : r.skeleton v = (r.pieces v).flatMap r.tokens := by
  rw [skeleton, List.flatMap_def, List.flatMap_def,
    ← List.attach_map_val (l := r.pieces v) (f := r.tokens)]
  refine congrArg _ (List.map_congr_left fun ⟨piece, _⟩ _ => ?_)
  cases piece <;> rfl

end Registry

/-- **The short form is the skeleton with the placeholder in every hole.** -/
theorem Printer.render_eq_fill (p : Printer) (v : Value) :
    p.render v = Token.fill p.placeholder (p.registry.skeleton v) := by
  induction v using Registry.pieces_induction (r := p.registry) with
  | step v ih =>
    rw [render_eq, Registry.skeleton_eq, Token.fill_flatMap, piecesText]
    refine congrArg String.join (List.map_congr_left fun piece mem => ?_)
    cases piece with
    | value w => exact ih w mem
    | _ => simp [pieceText, Registry.tokens, Token.fill, Token.fillOne]

/-- A printer of the standard registry fills the holes of the standard skeleton. -/
theorem Printer.render_standard (placeholder : String) (v : Value) :
    (standard placeholder).render v = Token.fill placeholder (Registry.standard.skeleton v) :=
  (standard placeholder).render_eq_fill v

/-- A hole stays open wherever the value is shown. -/
example : Registry.standard.skeleton (.list [none, some (.ofKind .classConst)]) =
    [.text "[", .text "null", .text ",", .hole, .text "::", .hole, .text "]"] := by
  decide +kernel

end ShortForm
