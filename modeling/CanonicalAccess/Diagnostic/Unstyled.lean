import CanonicalAccess.Diagnostic.Basic

/-!
# Text without style

Deleting the control sequences from a text leaves what is shown. A text is balanced if every styled
stretch in it is closed by a reset before the next one opens and before the end.
-/

set_option autoImplicit false

namespace CanonicalAccess.Diagnostic

/-- A text with the sequences for bold, red, cyan and reset deleted. -/
def unstyled : List Char → List Char
  | '\x1b' :: '[' :: '1' :: 'm' :: rest => unstyled rest
  | '\x1b' :: '[' :: '3' :: '1' :: 'm' :: rest => unstyled rest
  | '\x1b' :: '[' :: '3' :: '6' :: 'm' :: rest => unstyled rest
  | '\x1b' :: '[' :: '0' :: 'm' :: rest => unstyled rest
  | c :: rest => c :: unstyled rest
  | [] => []

/-- How a text stands between styled stretches: outside of one, among the sequences that open one,
or inside the text of one. -/
inductive Stretch where
  | outside
  | opening
  | inside
deriving DecidableEq, Repr

/-- Whether a text is balanced from a position on: sequences that open a stretch come together,
text follows them, and a reset ends it. -/
def balanced : Stretch → List Char → Bool
  | s, '\x1b' :: '[' :: '1' :: 'm' :: rest => s != .inside && balanced .opening rest
  | s, '\x1b' :: '[' :: '3' :: '1' :: 'm' :: rest => s != .inside && balanced .opening rest
  | s, '\x1b' :: '[' :: '3' :: '6' :: 'm' :: rest => s != .inside && balanced .opening rest
  | s, '\x1b' :: '[' :: '0' :: 'm' :: rest => s != .outside && balanced .outside rest
  | .outside, _ :: rest => balanced .outside rest
  | _, _ :: rest => balanced .inside rest
  | s, [] => s == .outside

end CanonicalAccess.Diagnostic
