import CanonicalAccess.Expr.Basic

/-!
# Expansion of canonical forms

The way back from canonical forms to accessor calls: an access becomes a call to the getter of its
property, and an assignment to an access a call to the setter, with the value as last argument. Any
other assignment stays one.
-/

set_option autoImplicit false

namespace CanonicalAccess

/-- The getter or setter of a member that is a property. -/
def Member.accessor (role : Role) : Member → Member
  | .property p => p.accessor role
  | _ => .absent

namespace Expr

/-- Whether a node is of a kind that stands for accessor calls: an access or an assignment. -/
def isCanonical : Expr → Bool
  | member .. | index .. | assign .. => true
  | _ => false

mutual

/-- The tree in which every canonical form is a call to the accessor it stands for. An assignment
is looked at before its target is, since a target is not read. -/
def expand : Expr → Expr
  | absent => absent
  | constant l v t => constant l v t
  | parameter l n t => parameter l n t
  | member l r p => call l (expand r) (p.accessor .getter) []
  | index l r p as => call l (expand r) (p.accessor .getter) (expandAll as)
  | assign l (member _ r p) v => call l (expand r) (p.accessor .setter) [expand v]
  | assign l (index _ r p as) v =>
    call l (expand r) (p.accessor .setter) (expandAll as ++ [expand v])
  | assign l t v => assign l (expand t) (expand v)
  | call l r m as => call l (expand r) m (expandAll as)
  | unary l o x t => unary l o (expand x) t
  | binary l o x y t => binary l o (expand x) (expand y) t
  | conditional l c x y => conditional l (expand c) (expand x) (expand y)
  | lambda l ps b => lambda l ps (expand b)
  | bare l => bare l
termination_by structural e => e

def expandAll : List Expr → List Expr
  | [] => []
  | e :: es => expand e :: expandAll es
termination_by structural es => es

end

/-- A list is expanded one tree at a time. -/
theorem expandAll_eq_map (es : List Expr) : expandAll es = es.map expand := by
  induction es with
  | nil => rfl
  | cons e es ih => rw [expandAll, ih, List.map_cons]

end Expr

end CanonicalAccess
