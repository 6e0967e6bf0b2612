import CanonicalAccess.Transformation.Update

/-!
# Transformers

A transformer walks a tree from the leaves up. At every node it visits the children from left to
right and then decides what takes the place of the node. Unless it says otherwise a leaf stays as
it is and any other node is updated with what its children became, so that a subtree in which
nothing changes is handed back itself. The parameters of a lambda are declarations and are not
visited.
-/

set_option autoImplicit false

namespace CanonicalAccess

structure Transformer where
  /-- What happens on entering a node of a kind, before its children are visited. -/
  enter : Kind → Transform Unit := fun _ => pure ()
  /-- What takes the place of a constant. -/
  onConstant : Expr → Transform Expr := pure
  /-- What takes the place of a parameter that is used. -/
  onParameter : Expr → Transform Expr := pure
  /-- What takes the place of a call, given what its receiver and its arguments became. -/
  onCall : Expr → Expr → List Expr → Transform Expr :=
    fun call receiver arguments => call.update [receiver] arguments
  /-- What takes the place of an operation with one operand, given what the operand became. -/
  onUnary : Expr → Expr → Transform Expr := fun operation operand => operation.update [operand] []

namespace Transformer

/-- For each of the expressions, whether another node took its place. -/
def changes : List Expr → List Expr → List Bool
  | e :: es, e' :: es' => (!e'.same e) :: changes es es'
  | _, _ => []

/-- The expressions themselves if none gave way to another node, else what they became. -/
def reuse (es es' : List Expr) : List Expr := if (changes es es').any id then es' else es

mutual

/-- Transforms an expression that has to be there. -/
def accept (f : Transformer) : Expr → Transform Expr
  | .absent => throw .missing
  | .constant l v t => do
    f.enter .constant
    f.onConstant (.constant l v t)
  | .parameter l n t => do
    f.enter .parameter
    f.onParameter (.parameter l n t)
  | .member l receiver p => do
    f.enter .memberAccess
    let receiver' ← if receiver.isAbsent then pure .absent else f.accept receiver
    (Expr.member l receiver p).update [receiver'] []
  | .index l receiver p arguments => do
    f.enter .index
    let receiver' ← if receiver.isAbsent then pure .absent else f.accept receiver
    let arguments' ← f.acceptAll arguments
    (Expr.index l receiver p arguments).update [receiver'] (reuse arguments arguments')
  | .assign l target value => do
    f.enter .assign
    let target' ← f.accept target
    let value' ← f.accept value
    (Expr.assign l target value).update [target', value'] []
  | .call l receiver m arguments => do
    f.enter .call
    let receiver' ← if receiver.isAbsent then pure .absent else f.accept receiver
    let arguments' ← f.acceptAll arguments
    f.onCall (.call l receiver m arguments) receiver' (reuse arguments arguments')
  | .unary l op operand t => do
    f.enter .unaryOp
    let operand' ← f.accept operand
    f.onUnary (.unary l op operand t) operand'
  | .binary l op left right t => do
    f.enter .binaryOp
    let left' ← f.accept left
    let right' ← f.accept right
    (Expr.binary l op left right t).update [left', right'] []
  | .conditional l test ifTrue ifFalse => do
    f.enter .conditional
    let test' ← f.accept test
    let ifTrue' ← f.accept ifTrue
    let ifFalse' ← f.accept ifFalse
    (Expr.conditional l test ifTrue ifFalse).update [test', ifTrue', ifFalse'] []
  | .lambda l parameters body => do
    f.enter .lambda
    let body' ← f.accept body
    (Expr.lambda l parameters body).update [body'] parameters
  | .bare _ => throw .unvisitable
termination_by structural e => e

def acceptAll (f : Transformer) : List Expr → Transform (List Expr)
  | [] => pure []
  | e :: es => do
    let e' ← f.accept e
    let es' ← f.acceptAll es
    return e' :: es'
termination_by structural es => es

end

/-- Transforms an expression that may be absent and then stays so. -/
def apply (f : Transformer) (e : Expr) : Transform Expr :=
  if e.isAbsent then pure .absent else f.accept e

end Transformer

end CanonicalAccess
