import CanonicalAccess.Transformation.Work

/-!
# Update of a node

A node is updated by giving it children. If they are the children it has, the very same ones, the
answer is the node itself; otherwise it is a new node that agrees with it in all else. That is what
keeps untouched subtrees shared.
-/

set_option autoImplicit false

namespace CanonicalAccess

namespace Expr

/-- The node with a new label and other children: its `operands` in order, and its `items`. A node
without children, or children that do not match its kind, leave it as it is. -/
def withChildren (l : Label) (e : Expr) (operands items : List Expr) : Expr :=
  match e, operands with
  | member _ _ p, [receiver] => member l receiver p
  | index _ _ p _, [receiver] => index l receiver p items
  | assign _ _ _, [target, value] => assign l target value
  | call _ _ m _, [receiver] => call l receiver m items
  | unary _ op _ t, [operand] => unary l op operand t
  | binary _ op _ _ t, [left, right] => binary l op left right t
  | conditional _ _ _ _, [test, ifTrue, ifFalse] => conditional l test ifTrue ifFalse
  | lambda _ _ _, [body] => lambda l items body
  | e, _ => e

/-- Whether these children are the very ones a node has. -/
def hasChildren (e : Expr) (operands items : List Expr) : Bool :=
  sameAll e.operands operands && sameAll e.items items

/-- The node itself if these are its children, else a new node with them. -/
def update (e : Expr) (operands items : List Expr) : Transform Expr :=
  if e.hasChildren operands items then pure e
  else Transform.create fun l => e.withChildren l operands items

/-- An update never fails; it takes a label exactly if some child is another node. -/
theorem update_apply (e : Expr) (operands items : List Expr) (w : Work) :
    e.update operands items w =
      if e.hasChildren operands items then .ok e w
      else .ok (e.withChildren w.nextLabel operands items)
        { w with nextLabel := w.nextLabel + 1 } := by
  unfold update
  split <;> rfl

end Expr

end CanonicalAccess
