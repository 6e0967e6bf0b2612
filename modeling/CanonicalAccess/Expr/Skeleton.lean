import CanonicalAccess.Expr.Basic

/-!
# The skeleton of a tree

What of a tree can be read off its text: kinds of nodes, operators, names, constants with the
names of their types, and which children and members are there. Labels, other static types and all
of a member but its name are left out.
-/

set_option autoImplicit false

namespace CanonicalAccess

/-- The visible part of a tree. -/
inductive Skeleton where
  | absent
  | constant (value : Value) (type : String)
  | parameter (name : String)
  | member (receiver : Skeleton) (property : Option String)
  | index (receiver : Skeleton) (indexer : Option String) (arguments : List Skeleton)
  | assign (target value : Skeleton)
  | call (receiver : Skeleton) (method : Option String) (arguments : List Skeleton)
  | unary (op : UnaryOp) (operand : Skeleton)
  | binary (op : BinaryOp) (left right : Skeleton)
  | conditional (test ifTrue ifFalse : Skeleton)
  | lambda (parameters : List (Option String)) (body : Skeleton)
  | bare
deriving Repr, Inhabited

namespace Expr

/-- The name of a parameter, if the node is one. -/
def declaredName? : Expr → Option String
  | parameter _ name _ => some name
  | _ => none

mutual

/-- The visible part of an expression. -/
def skeleton : Expr → Skeleton
  | absent => .absent
  | constant _ v t => .constant v t.name
  | parameter _ n _ => .parameter n
  | member _ r p => .member (skeleton r) p.name?
  | index _ r p as => .index (skeleton r) p.name? (skeletons as)
  | assign _ t v => .assign (skeleton t) (skeleton v)
  | call _ r m as => .call (skeleton r) m.name? (skeletons as)
  | unary _ o x _ => .unary o (skeleton x)
  | binary _ o x y _ => .binary o (skeleton x) (skeleton y)
  | conditional _ c x y => .conditional (skeleton c) (skeleton x) (skeleton y)
  | lambda _ ps b => .lambda (ps.map declaredName?) (skeleton b)
  | bare _ => .bare
termination_by structural e => e

def skeletons : List Expr → List Skeleton
  | [] => []
  | e :: es => skeleton e :: skeletons es
termination_by structural es => es

end

/-- The skeletons of a list are taken one by one. -/
theorem skeletons_eq_map (es : List Expr) : skeletons es = es.map skeleton := by
  induction es with
  | nil => rfl
  | cons e es ih => rw [skeletons, ih, List.map_cons]

end Expr

end CanonicalAccess
