import CanonicalAccess.Expr.Structure
import CanonicalAccess.Transformation.Traversal

/-!
# Positions in a tree

A position is the way from the root to a subtree: at each node, the place of a child among those
that are visited. Replacing the subtree at a position updates the nodes on the way and leaves the
rest shared.

A walk comes to a position once it has entered the nodes on the way and has visited, at each of
them, the children before the one to go on with. What it hands back there is what the visit that
starts then makes of the subtree.
-/

set_option autoImplicit false

namespace CanonicalAccess

namespace Expr

/-- The places of the children on the way from the root. -/
abbrev Path := List Nat

def subtree? (e : Expr) : Path → Option Expr
  | [] => some e
  | i :: path =>
    match e.children[i]? with
    | some c => c.subtree? path
    | none => none

/-- The single children of a node with the child at a place replaced. -/
def operandsWith (e : Expr) (i : Nat) (c : Expr) : List Expr := e.operands.set i c

/-- The list of a node with the child at a place replaced; places count the single children first.
-/
def itemsWith (e : Expr) (i : Nat) (c : Expr) : List Expr :=
  if i < e.operands.length then e.items else e.items.set (i - e.operands.length) c

def replaceAt (new : Expr) : Path → Expr → Transform Expr
  | [], _ => pure new
  | i :: path, e =>
    match e.children[i]? with
    | some c => do
      let c' ← replaceAt new path c
      e.update (e.operandsWith i c') (e.itemsWith i c')
    | none => pure e

end Expr

namespace Transformer

/-- The visits of the children of a node, in order. -/
def visits (f : Transformer) (e : Expr) : List (Transform Expr) :=
  match e.children with
  | [] => []
  | c :: cs => (if e.hasReceiver then f.apply c else f.accept c) :: cs.map f.accept

/-- Enters a node and visits the first of its children, as many as said. -/
def visitFirst (f : Transformer) (e : Expr) (i : Nat) : Transform (List Expr) :=
  match e.kind? with
  | some k => do
    f.enter k
    Transform.inOrder ((f.visits e).take i)
  | none => throw .missing

/-- Walks to a position; the answer is the subtree there, whose own visit comes next. -/
def walkTo (f : Transformer) : Expr.Path → Expr → Transform Expr
  | [], e => pure e
  | i :: path, e => do
    let _ ← f.visitFirst e i
    match e.children[i]? with
    | some c => f.walkTo path c
    | none => throw .missing

/-- What a walk hands back for the subtree at a position. -/
def resultAt (f : Transformer) (path : Expr.Path) (e : Expr) : Transform Expr := do
  let s ← f.walkTo path e
  f.apply s

end Transformer

end CanonicalAccess
