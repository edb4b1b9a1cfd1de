import ShortForm.Decimal
import ShortForm.Tree

/-!
# Literals

The text of a scalar reads like a literal of the language. It stays on one line whatever the
scalar holds: a string stands between single quotes, and the three characters that would break the
line there are spliced in from between double quotes, as in `'a' . "\n" . 'b'`. A double is
written positionally at every magnitude.
-/

namespace ShortForm.Literal

/-- Doubles are shown positionally; of two equally near decimals the greater one. -/
def floatStyle : Decimal.Style := ⟨.up, fun _ => true⟩

/-- The literal of a double. -/
def float (x : Binary64) : String :=
  if x.isNaN then "NAN"
  else if x.isInfinite then if x.isNegative then "-INF" else "INF"
  else String.ofList (x.decimal floatStyle)

/-- A character between single quotes. A line feed, a carriage return and a zero character close
the quotes, stand between double quotes and open the single quotes again. -/
def quoted : Char → List Char
  | '\\' => ['\\', '\\']
  | '\'' => ['\\', '\'']
  | '\x00' => "' . \"\\0\" . '".toList
  | '\n' => "' . \"\\n\" . '".toList
  | '\r' => "' . \"\\r\" . '".toList
  | c => [c]

/-- The literal of a string. -/
def string (s : String) : String :=
  String.ofList ('\'' :: (s.toList.flatMap quoted ++ ['\'']))

end ShortForm.Literal

namespace ShortForm

/-- The literal of a scalar. Nodes and lists have none. -/
def Value.literal? : Value → Option String
  | .null => some "null"
  | .bool b => some (if b then "true" else "false")
  | .int n => some (toString n.toInt)
  | .float x => some (Literal.float x)
  | .string s => some (Literal.string s)
  | .node _ | .list _ => none

end ShortForm
