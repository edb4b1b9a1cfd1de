import ShortForm.Renderer

/-!
# Registries

A registry holds at most one renderer for each kind. It is filled kind by kind: a kind that has a
renderer already is refused, so no registration is ever lost. A registry that has to serve certain
kinds is checked for them once, and the first kind it lacks is named.

A registry is the function from kinds to renderers and nothing else, so the order in which the
renderers came in leaves no trace.
-/

namespace ShortForm

/-- Why a registry could not be made. -/
inductive RegistryError where
  /-- The kind has a renderer already. -/
  | duplicate (kind : Kind)
  /-- The kind is required and has no renderer. -/
  | missing (kind : Kind)
  deriving DecidableEq

/-- The wording of a refusal. -/
def RegistryError.message : RegistryError → String
  | duplicate kind => "a renderer for " ++ kind.tag ++ " is already registered"
  | missing kind => "no renderer registered for required kind " ++ kind.tag

/-- The renderers of the kinds that have one. -/
structure Registry where
  find? : Kind → Option Renderer

namespace Registry

/-- No kind has a renderer. -/
def empty : Registry := ⟨fun _ => none⟩

/-- The kind has a renderer. -/
def contains (r : Registry) (kind : Kind) : Bool := (r.find? kind).isSome

/-- The kinds that have a renderer, in the order of kinds. -/
def kinds (r : Registry) : List Kind := Kind.all.filter r.contains

/-- The number of kinds that have a renderer. -/
def size (r : Registry) : Nat := r.kinds.length

/-- No kind has a renderer. -/
def isEmpty (r : Registry) : Bool := r.size == 0

/-- Adds a renderer for a kind that has none. -/
def register (r : Registry) (kind : Kind) (renderer : Renderer) : Except RegistryError Registry :=
  if r.contains kind then .error (.duplicate kind)
  else .ok ⟨fun k => if k = kind then some renderer else r.find? k⟩

/-- Adds renderers one after the other. -/
def registerAll (r : Registry) (entries : List (Kind × Renderer)) : Except RegistryError Registry :=
  entries.foldlM (fun r (kind, renderer) => r.register kind renderer) r

/-- The registry itself, if every required kind has a renderer. -/
def require (r : Registry) (required : List Kind) : Except RegistryError Registry :=
  match required.find? fun kind => !r.contains kind with
  | some kind => .error (.missing kind)
  | none => .ok r

/-- The kinds that the standard registry serves. -/
def standardKinds : List Kind := [.name, .const, .classConst, .array]

/-- The registry of the renderers that kinds have of their own. -/
def standard : Registry := ⟨Renderer.ofKind?⟩

/-- The listing of a registry whose table goes through the kinds in this order. -/
def listingOf (kinds : List Kind) : String :=
  "RendererRegistry \x7b kinds: [" ++ ", ".intercalate ((Kind.sorted kinds).map Kind.title) ++
    "] \x7d"

/-- A listing of the kinds that have a renderer. -/
def listing (r : Registry) : String := listingOf r.kinds

end Registry

end ShortForm
