import CanonicalAccess.Expr.Leaves
import CanonicalAccess.Proofs.NormalForm

/-!
# Operands

Normalization says in another way how operands are used, and leaves the operands alone. A setter
call holds its receiver, its indices and its value in one row, the assignment that takes its place
in two nodes; read from left to right, the leaves of the one are the leaves of the other. So no leaf
is lost, copied or moved (`leaves_normalize`), and what was evaluated first still is.
-/

set_option autoImplicit false

namespace CanonicalAccess

namespace Expr

/-- The leaves of a list of trees are those of each in turn. -/
theorem leavesAll_eq_flatMap (es : List Expr) : leavesAll es = es.flatMap leaves := by
  induction es with
  | nil => rfl
  | cons e es ih => rw [leavesAll, ih, List.flatMap_cons]

/-- The leaves of a tree that are not leaves of the root's children: the root, if it is a leaf, or
the parameters that it declares. -/
def ownLeaves : Expr → List Leaf
  | absent => [.noReceiver]
  | constant l v t => [.node (constant l v t)]
  | parameter l n t => [.node (parameter l n t)]
  | lambda _ ps _ => [.declared ps]
  | bare l => [.node (bare l)]
  | _ => []

/-- The leaves of a tree are its own and then those of its children. -/
theorem leaves_eq_flatMap_children (e : Expr) :
    e.leaves = e.ownLeaves ++ e.children.flatMap leaves := by
  cases e <;> simp [leaves, ownLeaves, children, operands, items, leavesAll_eq_flatMap]

/-- A rebuilt node has the same leaves of its own. -/
theorem ownLeaves_rebuild {l : Label} {e : Expr} {cs : List Expr}
    (hlen : cs.length = e.children.length) : (e.rebuild l cs).ownLeaves = e.ownLeaves := by
  induction e, cs, hlen using children_cases with
  | _ => rfl

/-- Children that keep their leaves keep them together. -/
theorem flatMap_leaves_eq {es cs : List Expr}
    (h : List.Forall₂ (fun e c => c.leaves = e.leaves) es cs) :
    cs.flatMap leaves = es.flatMap leaves := by
  induction h with
  | nil => rfl
  | cons head _ ih => rw [List.flatMap_cons, List.flatMap_cons, head, ih]

/-- A node rebuilt from children with the same leaves has the same leaves. -/
theorem leaves_rebuild {l : Label} {e : Expr} {cs : List Expr}
    (hcs : List.Forall₂ (fun e c => c.leaves = e.leaves) e.children cs) :
    (e.rebuild l cs).leaves = e.leaves := by
  have hlen := hcs.length_eq.symm
  rw [leaves_eq_flatMap_children, leaves_eq_flatMap_children e, ownLeaves_rebuild hlen,
    children_rebuild hlen, flatMap_leaves_eq hcs]

end Expr

namespace Normalization

/-- The leaves of some arguments are those of all but the last and then those of the last. -/
theorem leavesAll_dropLast_append_getLastD {arguments : List Expr} (h : arguments ≠ []) :
    Expr.leavesAll arguments.dropLast ++ (arguments.getLastD .absent).leaves =
      Expr.leavesAll arguments := by
  have hlast : (arguments.getLastD .absent).leaves =
      Expr.leavesAll [arguments.getLastD .absent] := by
    rw [Expr.leavesAll, Expr.leavesAll, List.append_nil]
  rw [hlast, ← Expr.leavesAll_append, dropLast_append_getLastD h]

/-- The leaves of a canonical node are those of the receiver and then those of the arguments, no
matter which of them are indices and which is the value. -/
theorem leaves_canonicalNode {l : Label} {a : Access} {p : Property} {receiver : Expr}
    {arguments : List Expr} (takes : a.Takes arguments.length) :
    (canonicalNode l a p receiver arguments).leaves =
      receiver.leaves ++ Expr.leavesAll arguments := by
  cases a with
  | readProperty =>
    obtain rfl := List.length_eq_zero_iff.mp takes
    simp [canonicalNode, Expr.leaves, Expr.leavesAll]
  | readIndexer => rfl
  | writeProperty =>
    obtain ⟨value, rfl⟩ := List.length_eq_one_iff.mp takes
    simp [canonicalNode, Expr.leaves, Expr.leavesAll]
  | writeIndexer =>
    rw [← leavesAll_dropLast_append_getLastD (takes.ne_nil rfl), ← List.append_assoc]
    rfl

variable {metadata : Metadata}

/-- A settled call hands on the leaves that its receiver and its arguments have become. -/
theorem leaves_of_settled {e r : Expr} {cs : List Expr} {w w' : Work}
    (hcs : List.Forall₂ (fun e c => c.leaves = e.leaves) e.children cs)
    (h : Settled metadata e cs w r w') : r.leaves = e.leaves := by
  obtain ⟨shape, -, -, -⟩ := h
  rw [Expr.children_call] at hcs
  obtain ⟨hreceiver, harguments⟩ := List.forall₂_cons.mp hcs
  have takes := Method.takes_of_access? shape
  rw [harguments.length_eq] at takes
  rw [leaves_canonicalNode takes, hreceiver, Expr.leaves, Expr.leavesAll_eq_flatMap,
    Expr.leavesAll_eq_flatMap, Expr.flatMap_leaves_eq harguments]

/-- A visit keeps the leaves of a tree. -/
theorem leaves_of_visit {e r : Expr} {w w' : Work} (known : e.labelsBelow w.nextLabel = true)
    (h : (normalizer metadata).Visit e w r w') : r.leaves = e.leaves := by
  refine normalizer_induction ?_ ?_ ?_ known h
  · rfl
  · intro e cs w r w' hk _ _ _ hfaithful hcs _ hrefit
    obtain ⟨l, rfl⟩ := Expr.exists_rebuild_of_refit hk hfaithful hrefit
    exact Expr.leaves_rebuild hcs
  · intro e cs w r w' _ _ hcs _ hsettled
    exact leaves_of_settled hcs hsettled

end Normalization

/-- The leaves of a normalized tree are the leaves of the tree, the same nodes in the same order. -/
theorem leaves_normalize {metadata : Metadata} {t r : Expr} {w w' : Work}
    (known : t.labelsBelow w.nextLabel = true) (h : normalize metadata t w = .ok r w') :
    r.leaves = t.leaves := by
  obtain ⟨w₁, haccept, -⟩ := normalize_eq_ok_iff.mp h
  obtain ⟨-, hvisit⟩ := Transformer.visit_of_accept haccept
  exact Normalization.leaves_of_visit (w := { w with settled := 0 }) known hvisit

/-- The function that copies the first cell reads its operands in the order it was written in, the
row that it writes to before the cell that it reads. -/
theorem leaves_normalize_copyFirst :
    Grid.copyFirst.labelsBelow 6 = true ∧
      (∃ w', normalize Grid.provider Grid.copyFirst (Work.start 6) = .ok Grid.copiedFirst w') ∧
      Grid.copiedFirst.leaves = Grid.copyFirst.leaves ∧
      Grid.copyFirst.leaves = [.declared [Grid.row], .node Grid.grid, .node Grid.row,
        .node Grid.grid, .node Grid.first] := by
  have known : Grid.copyFirst.labelsBelow (Work.start 6).nextLabel = true := by decide
  exact ⟨known, ⟨_, Grid.normalize_copyFirst⟩, leaves_normalize known Grid.normalize_copyFirst, rfl⟩

end CanonicalAccess
