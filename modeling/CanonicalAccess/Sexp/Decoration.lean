import CanonicalAccess.Sexp.OfExpr

/-!
# Decoration with types

The S-expression of an expression with types is the one without, decorated: behind the form of
every node but constants and nodes of no particular kind stands the static type of the node.
Decoration is said here of two given S-expressions, whatever made them.
-/

set_option autoImplicit false

namespace CanonicalAccess.Sexp

/-- What stands behind a form that shows a type. -/
def typeMark (t : Ty) : List Sexp := [word ":type", ofType t]

mutual

/-- The second S-expression is the first one, decorated with the types of the expression. -/
inductive Decorated : Expr → Sexp → Sexp → Prop where
  | absent (s : Sexp) : Decorated .absent s s
  | constant (l : Label) (v : Value) (t : Ty) (s : Sexp) : Decorated (.constant l v t) s s
  | bare (l : Label) (s : Sexp) : Decorated (.bare l) s s
  | parameter (l : Label) (n : String) (t : Ty) (items : List Sexp) :
    Decorated (.parameter l n t) (form items) (form (items ++ typeMark t))
  | member {l : Label} {r : Expr} {p : Member} {t : Ty} {k s s' n : Sexp} :
    Decorated r s s' → (Expr.member l r p).type = .ok t →
    Decorated (.member l r p) (form [k, s, n]) (form ([k, s', n] ++ typeMark t))
  | index {l : Label} {r : Expr} {p : Member} {as : List Expr} {t : Ty} {k s s' n : Sexp}
      {ss ss' : List Sexp} :
    Decorated r s s' → DecoratedAll as ss ss' → (Expr.index l r p as).type = .ok t →
    Decorated (.index l r p as) (form [k, s, n, form ss])
      (form ([k, s', n, form ss'] ++ typeMark t))
  | assign {l : Label} {x v : Expr} {t : Ty} {k s s' u u' : Sexp} :
    Decorated x s s' → Decorated v u u' → (Expr.assign l x v).type = .ok t →
    Decorated (.assign l x v) (form [k, s, u]) (form ([k, s', u'] ++ typeMark t))
  | call {l : Label} {r : Expr} {m : Member} {as : List Expr} {t : Ty} {k s s' n : Sexp}
      {ss ss' : List Sexp} :
    Decorated r s s' → DecoratedAll as ss ss' → (Expr.call l r m as).type = .ok t →
    Decorated (.call l r m as) (form [k, s, n, form ss])
      (form ([k, s', n, form ss'] ++ typeMark t))
  | unary {l : Label} {o : UnaryOp} {x : Expr} {t : Ty} {k n s s' : Sexp} :
    Decorated x s s' →
    Decorated (.unary l o x t) (form [k, n, s]) (form ([k, n, s'] ++ typeMark t))
  | binary {l : Label} {o : BinaryOp} {x y : Expr} {t : Ty} {k n s s' u u' : Sexp} :
    Decorated x s s' → Decorated y u u' →
    Decorated (.binary l o x y t) (form [k, n, s, u]) (form ([k, n, s', u'] ++ typeMark t))
  | conditional {l : Label} {c x y : Expr} {t : Ty} {k s s' u u' v v' : Sexp} :
    Decorated c s s' → Decorated x u u' → Decorated y v v' →
    (Expr.conditional l c x y).type = .ok t →
    Decorated (.conditional l c x y) (form [k, s, u, v])
      (form ([k, s', u', v'] ++ typeMark t))
  | lambda {l : Label} {ps : List Expr} {b : Expr} {t : Ty} {k n s s' : Sexp} :
    Decorated b s s' → (Expr.lambda l ps b).type = .ok t →
    Decorated (.lambda l ps b) (form [k, n, s]) (form ([k, n, s'] ++ typeMark t))

/-- The same of lists, item by item. -/
inductive DecoratedAll : List Expr → List Sexp → List Sexp → Prop where
  | nil : DecoratedAll [] [] []
  | cons {e : Expr} {es : List Expr} {s s' : Sexp} {ss ss' : List Sexp} :
    Decorated e s s' → DecoratedAll es ss ss' → DecoratedAll (e :: es) (s :: ss) (s' :: ss')

end

end CanonicalAccess.Sexp
