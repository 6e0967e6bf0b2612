import CanonicalAccess.Expr.Basic

/-!
# The parts of a tree

The nodes of a tree that a transformer visits are all but those in the parameter list of a lambda.
They are listed here with children before their node and from left to right, which is the order in
which their visits end. A node that stands in several places is listed once for each.

A tree is complete if nothing in it is missing that has to be there.
-/

set_option autoImplicit false

namespace CanonicalAccess

def Member.isMethod : Member → Bool
  | .method _ => true
  | _ => false

namespace Expr

/-- The children that are visited. The parameters of a lambda are declarations. -/
def children : Expr → List Expr
  | lambda _ _ body => [body]
  | e => e.operands ++ e.items

/-- The child of an access is its receiver. -/
@[simp] theorem children_member (l : Label) (r : Expr) (p : Member) :
    (member l r p).children = [r] := rfl

/-- The children of an index are its receiver and its arguments. -/
@[simp] theorem children_index (l : Label) (r : Expr) (p : Member) (as : List Expr) :
    (index l r p as).children = r :: as := rfl

/-- The children of an assignment are its target and its value. -/
@[simp] theorem children_assign (l : Label) (t v : Expr) : (assign l t v).children = [t, v] := rfl

/-- The children of a call are its receiver and its arguments. -/
@[simp] theorem children_call (l : Label) (r : Expr) (m : Member) (as : List Expr) :
    (call l r m as).children = r :: as := rfl

/-- The child of an operation with one operand is the operand. -/
@[simp] theorem children_unary (l : Label) (o : UnaryOp) (x : Expr) (t : Ty) :
    (unary l o x t).children = [x] := rfl

/-- The children of an operation with two operands are the operands. -/
@[simp] theorem children_binary (l : Label) (o : BinaryOp) (x y : Expr) (t : Ty) :
    (binary l o x y t).children = [x, y] := rfl

/-- The children of a conditional are its test and its branches. -/
@[simp] theorem children_conditional (l : Label) (c x y : Expr) :
    (conditional l c x y).children = [c, x, y] := rfl

/-- The child of a lambda is its body; its parameters are declarations. -/
@[simp] theorem children_lambda (l : Label) (ps : List Expr) (b : Expr) :
    (lambda l ps b).children = [b] := rfl

/-- Whether the first child is a receiver. No other child may be absent. -/
def hasReceiver : Expr → Bool
  | member .. | index .. | call .. => true
  | _ => false

/-- The children that have to be there: all but a receiver. -/
def required (e : Expr) : List Expr := if e.hasReceiver then e.items else e.children

mutual

/-- The nodes of a tree outside parameter lists, each behind its children. -/
def nodes : Expr → List Expr
  | absent => []
  | constant l v t => [constant l v t]
  | parameter l n t => [parameter l n t]
  | member l r p => nodes r ++ [member l r p]
  | index l r p as => nodes r ++ nodesAll as ++ [index l r p as]
  | assign l t v => nodes t ++ nodes v ++ [assign l t v]
  | call l r m as => nodes r ++ nodesAll as ++ [call l r m as]
  | unary l o x t => nodes x ++ [unary l o x t]
  | binary l o x y t => nodes x ++ nodes y ++ [binary l o x y t]
  | conditional l c x y => nodes c ++ nodes x ++ nodes y ++ [conditional l c x y]
  | lambda l ps b => nodes b ++ [lambda l ps b]
  | bare l => [bare l]
termination_by structural e => e

def nodesAll : List Expr → List Expr
  | [] => []
  | e :: es => nodes e ++ nodesAll es
termination_by structural es => es

end

mutual

/-- Nothing is missing in a tree: only receivers are absent, every call goes to a method, and
every node has a kind. Parameter lists do not matter. -/
def complete : Expr → Bool
  | absent => false
  | constant .. => true
  | parameter .. => true
  | member _ r _ => r.isAbsent || complete r
  | index _ r _ as => (r.isAbsent || complete r) && completeAll as
  | assign _ t v => complete t && complete v
  | call _ r m as => (r.isAbsent || complete r) && m.isMethod && completeAll as
  | unary _ _ x _ => complete x
  | binary _ _ x y _ => complete x && complete y
  | conditional _ c x y => complete c && complete x && complete y
  | lambda _ _ b => complete b
  | bare _ => false
termination_by structural e => e

def completeAll : List Expr → Bool
  | [] => true
  | e :: es => complete e && completeAll es
termination_by structural es => es

end

mutual

/-- Every label in a tree, parameter lists included, is below a bound. -/
def labelsBelow (n : Label) : Expr → Bool
  | absent => true
  | constant l _ _ => l < n
  | parameter l _ _ => l < n
  | member l r _ => l < n && labelsBelow n r
  | index l r _ as => l < n && labelsBelow n r && labelsBelowAll n as
  | assign l t v => l < n && labelsBelow n t && labelsBelow n v
  | call l r _ as => l < n && labelsBelow n r && labelsBelowAll n as
  | unary l _ x _ => l < n && labelsBelow n x
  | binary l _ x y _ => l < n && labelsBelow n x && labelsBelow n y
  | conditional l c x y => l < n && labelsBelow n c && labelsBelow n x && labelsBelow n y
  | lambda l ps b => l < n && labelsBelowAll n ps && labelsBelow n b
  | bare l => l < n
termination_by structural e => e

def labelsBelowAll (n : Label) : List Expr → Bool
  | [] => true
  | e :: es => labelsBelow n e && labelsBelowAll n es
termination_by structural es => es

end

/-- The nodes of a list of trees are those of each in turn. -/
theorem nodesAll_eq_flatMap (es : List Expr) : nodesAll es = es.flatMap nodes := by
  induction es with
  | nil => rfl
  | cons e es ih => rw [nodesAll, ih, List.flatMap_cons]

/-- A list is complete if each of its trees is. -/
theorem completeAll_eq_all (es : List Expr) : completeAll es = es.all complete := by
  induction es with
  | nil => rfl
  | cons e es ih => rw [completeAll, ih, List.all_cons]

/-- The labels of a list are below a bound if those of each of its trees are. -/
theorem labelsBelowAll_eq_all (n : Label) (es : List Expr) :
    labelsBelowAll n es = es.all (labelsBelow n) := by
  induction es with
  | nil => rfl
  | cons e es ih => rw [labelsBelowAll, ih, List.all_cons]

end Expr

end CanonicalAccess
