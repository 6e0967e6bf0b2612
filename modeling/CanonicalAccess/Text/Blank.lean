/-!
# Blank characters

A character is blank if it only separates: spaces of any width, tabulators, and the ends of lines,
paragraphs and records.
-/

set_option autoImplicit false

namespace CanonicalAccess.Text

/-- The ranges of code points that are blank, both ends included. -/
def blankRanges : List (Nat × Nat) := [
  (0x09, 0x0d), (0x1c, 0x20), (0x85, 0x85), (0xa0, 0xa0), (0x1680, 0x1680), (0x2000, 0x200a),
  (0x2028, 0x2029), (0x202f, 0x202f), (0x205f, 0x205f), (0x3000, 0x3000)]

def isBlank (c : Char) : Bool :=
  blankRanges.any fun (first, last) => first ≤ c.toNat && c.toNat ≤ last

end CanonicalAccess.Text
