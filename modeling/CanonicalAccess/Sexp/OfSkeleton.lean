import CanonicalAccess.Expr.Skeleton
import CanonicalAccess.Sexp.OfExpr

/-!
# Skeletons as S-expressions

What an expression is written as, told from its visible part alone. No type is shown but those of
constants.
-/

set_option autoImplicit false

namespace CanonicalAccess

/-- A name as text, and `nil` where there is none. -/
def Sexp.ofName? : Option String → Sexp
  | some name => datum (.str name)
  | none => nil

namespace Skeleton

mutual

def toSexp : Skeleton → Sexp
  | absent => .nil
  | constant v t => .form [.word "constant", .ofValue v, .word t]
  | parameter n => .form [.word "parameter", .datum (.str n)]
  | member r p => .form [.word "member", toSexp r, .ofName? p]
  | index r p as => .form [.word "index", toSexp r, .ofName? p, .form (toSexps as)]
  | assign t v => .form [.word "assign", toSexp t, toSexp v]
  | call r m as => .form [.word "call", toSexp r, .ofName? m, .form (toSexps as)]
  | unary o x => .form [.word "unary-op", .word o.symbol, toSexp x]
  | binary o x y => .form [.word "binary-op", .word o.symbol, toSexp x, toSexp y]
  | conditional c x y => .form [.word "if", toSexp c, toSexp x, toSexp y]
  | lambda ps b => .form [.word "lambda", .form (ps.map Sexp.ofName?), toSexp b]
  | bare => .form [.word Expr.bareName, .word "..."]
termination_by structural s => s

def toSexps : List Skeleton → List Sexp
  | [] => []
  | s :: ss => toSexp s :: toSexps ss
termination_by structural ss => ss

end

/-- A list of skeletons is written one skeleton at a time. -/
theorem toSexps_eq_map (ss : List Skeleton) : toSexps ss = ss.map toSexp := by
  induction ss with
  | nil => rfl
  | cons s ss ih => rw [toSexps, ih, List.map_cons]

end Skeleton

end CanonicalAccess
