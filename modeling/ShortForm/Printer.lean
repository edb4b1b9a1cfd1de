import ShortForm.Literal
import ShortForm.Options
import ShortForm.Registry

/-!
# Short forms

A printer puts the text of a tree together: a node by the renderer of its kind, a scalar by its
literal. A node whose kind has no renderer, and every hole that a renderer leaves, is shown as the
placeholder. Every value has a short form, whatever its shape.
-/

namespace ShortForm

/-- What short forms are made by. -/
structure Printer where
  registry : Registry := .standard
  options : Options := {}

namespace Printer

/-- Stands for what cannot be shown. -/
def placeholder (p : Printer) : String := p.options.placeholder

/-- The short form of a value. A list that stands by itself shows its empty slots. -/
def render (p : Printer) : Value → String
  | .node n =>
    match p.registry.find? n.kind with
    | some renderer => String.join ((renderer n).map fun
        | .text s => s
        | .hole => p.placeholder
        | .value v _ => p.render v)
    | none => p.placeholder
  | .list slots =>
    "[" ++ ",".intercalate (slots.attach.map fun
      | ⟨none, _⟩ => "null"
      | ⟨some m, _⟩ => p.render (.node m)) ++ "]"
  | v => v.literal?.getD p.placeholder
termination_by v => sizeOf v
decreasing_by
  · have smaller := Value.Inside.sizeOf_lt ‹_›
    simp only [Value.node.sizeOf_spec]
    omega
  · exact Value.sizeOf_slot_lt ‹_›

/-- The short form of a node. -/
def renderNode (p : Printer) (n : Node) : String := p.render (.node n)

/-- The short form of the child under a name. -/
def renderChild (p : Printer) (n : Node) (name : String) : String :=
  match n.child? name with
  | some v => p.render v
  | none => p.placeholder

/-- The short form of the child under a name, which has to be a node. -/
def renderChildNode (p : Printer) (n : Node) (name : String) : String :=
  match n.childNode? name with
  | some m => p.renderNode m
  | none => p.placeholder

end Printer

/-- The short form of a value by the standard registry. -/
def Value.shortForm (v : Value) : String := Printer.render {} v

/-- The short form of a node by the standard registry. -/
def Node.shortForm (n : Node) : String := Printer.renderNode {} n

end ShortForm
