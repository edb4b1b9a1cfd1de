/-!
# Options

What can be chosen about short forms.
-/

namespace ShortForm

/-- What can be chosen about short forms. -/
structure Options where
  /-- Stands for what cannot be shown. -/
  placeholder : String := "(unknown)"
  deriving DecidableEq

end ShortForm
