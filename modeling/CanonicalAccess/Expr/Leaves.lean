import CanonicalAccess.Expr.Basic

/-!
# The leaves of a tree

Read from left to right, the leaves of a tree are its constants and its parameters, the places
where a receiver is absent, and the parameter lists of its lambdas: what is computed with, as
opposed to how.
-/

set_option autoImplicit false

namespace CanonicalAccess

/-- A leaf: a node without children, an absent receiver, or a list of declared parameters. -/
inductive Leaf where
  | node (e : Expr)
  | noReceiver
  | declared (parameters : List Expr)
deriving Repr

namespace Expr

mutual

/-- The leaves of a tree: a receiver before arguments, a target before its value, operands from
left to right, a test before its branches, parameters before the body. -/
def leaves : Expr → List Leaf
  | absent => [.noReceiver]
  | constant l v t => [.node (constant l v t)]
  | parameter l n t => [.node (parameter l n t)]
  | member _ r _ => leaves r
  | index _ r _ as => leaves r ++ leavesAll as
  | assign _ t v => leaves t ++ leaves v
  | call _ r _ as => leaves r ++ leavesAll as
  | unary _ _ x _ => leaves x
  | binary _ _ x y _ => leaves x ++ leaves y
  | conditional _ c x y => leaves c ++ leaves x ++ leaves y
  | lambda _ ps b => .declared ps :: leaves b
  | bare l => [.node (bare l)]
termination_by structural e => e

def leavesAll : List Expr → List Leaf
  | [] => []
  | e :: es => leaves e ++ leavesAll es
termination_by structural es => es

end

/-- The leaves of two lists are those of the first and then those of the second. -/
theorem leavesAll_append (es fs : List Expr) :
    leavesAll (es ++ fs) = leavesAll es ++ leavesAll fs := by
  induction es with
  | nil => rfl
  | cons e es ih => rw [List.cons_append, leavesAll, leavesAll, ih, List.append_assoc]

end Expr

end CanonicalAccess
