import CanonicalAccess.Sexp.Layout

/-!
# The layout of a form, told from the top

The flat text of an S-expression has every form on one line. A form breaks exactly if its flat
text does not fit; this says how a text looks without laying out its elements first.
-/

set_option autoImplicit false

namespace CanonicalAccess.Sexp

mutual

def flatChars : Sexp → List Char
  | word text => text.toList
  | datum value => datumChars value
  | form items => parens (spaced (flatItems items))
termination_by structural s => s

def flatItems : List Sexp → List (List Char)
  | [] => []
  | s :: rest => flatChars s :: flatItems rest
termination_by structural items => items

end

/-- The elements of a form are written flat one by one. -/
theorem flatItems_eq_map (items : List Sexp) : flatItems items = items.map flatChars := by
  induction items with
  | nil => rfl
  | cons s rest ih => rw [flatItems, ih, List.map_cons]

/-- A form broken over lines: the first element behind the parenthesis, every other on a line of
its own one step deeper, and the closing parenthesis on the last line. -/
def brokenChars (l : Layout) (depth : Int) (first : List Char) (others : List (List Char)) :
    List Char :=
  '(' :: (first ++ others.flatMap (fun cs => '\n' :: (l.indent (depth + 1) ++ cs)) ++
    '\n' :: (l.indent depth ++ [')']))

mutual

/-- The text of an S-expression at a depth: its flat text if it is no form or fits, else broken. -/
def fittedChars (l : Layout) (depth : Int) : Sexp → List Char
  | word text => text.toList
  | datum value => datumChars value
  | form [] => ['(', ')']
  | form (first :: others) =>
    if l.fits (flatChars (form (first :: others))) then flatChars (form (first :: others))
    else brokenChars l depth (fittedChars l (depth + 1) first) (fittedItems l (depth + 1) others)
termination_by structural s => s

def fittedItems (l : Layout) (depth : Int) : List Sexp → List (List Char)
  | [] => []
  | s :: rest => fittedChars l depth s :: fittedItems l depth rest
termination_by structural items => items

end

end CanonicalAccess.Sexp
