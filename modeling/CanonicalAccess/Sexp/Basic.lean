import CanonicalAccess.Value.Basic

/-!
# S-expressions

An S-expression is a bare word, a datum, or a form: a parenthesised sequence of S-expressions. A
word and a text datum of the same characters are different.
-/

set_option autoImplicit false

namespace CanonicalAccess

/-- A word, a datum or a form. -/
inductive Sexp where
  | word (text : String)
  | datum (value : Value)
  | form (items : List Sexp)
deriving Repr, Inhabited

end CanonicalAccess
