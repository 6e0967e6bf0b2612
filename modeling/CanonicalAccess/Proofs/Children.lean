import CanonicalAccess.Expr.Induction
import CanonicalAccess.Normalization.RoundTrip
import Mathlib.Data.List.Basic

/-!
# Trees by their children

Twelve kinds of expression have one thing in common: a list of children that are visited. What is
said of a tree by recursion over its kinds is said here once more by recursion over that list, so
that a proof about all kinds has one case. The parameters of a lambda are no children.
-/

set_option autoImplicit false

namespace CanonicalAccess.Expr

/-- A statement holds of every expression if it holds of each whose children it holds of. -/
theorem children_induction {motive : Expr → Prop}
    (step : ∀ e, (∀ c ∈ e.children, motive c) → motive e) (e : Expr) : motive e := by
  induction e with
  | absent | constant _ _ _ | parameter _ _ _ | bare _ =>
    apply step
    simp [children, operands, items]
  | member l r p hr => exact step _ (by simpa [children, operands, items] using hr)
  | index l r p as hr has =>
    apply step
    simpa [children, operands, items] using And.intro hr has
  | assign l t v ht hv =>
    apply step
    simpa [children, operands, items] using And.intro ht hv
  | call l r m as hr has =>
    apply step
    simpa [children, operands, items] using And.intro hr has
  | unary l o x t hx => exact step _ (by simpa [children, operands, items] using hx)
  | binary l o x y t hx hy =>
    apply step
    simpa [children, operands, items] using And.intro hx hy
  | conditional l c x y hc hx hy =>
    apply step
    simpa [children, operands, items] using And.intro hc (And.intro hx hy)
  | lambda l ps b _ hb => exact step _ (by simpa [children] using hb)

/-- A node together with as many expressions as it has children, by kind. -/
@[elab_as_elim]
theorem children_cases {motive : (e : Expr) → (cs : List Expr) →
      cs.length = e.children.length → Prop}
    (absent : motive .absent [] rfl)
    (constant : ∀ l v t, motive (.constant l v t) [] rfl)
    (parameter : ∀ l n t, motive (.parameter l n t) [] rfl)
    (member : ∀ l r p r', motive (.member l r p) [r'] rfl)
    (index : ∀ l r p as r' as' (length : as'.length = as.length),
      motive (.index l r p as) (r' :: as') (congrArg Nat.succ length))
    (assign : ∀ l t v t' v', motive (.assign l t v) [t', v'] rfl)
    (call : ∀ l r m as r' as' (length : as'.length = as.length),
      motive (.call l r m as) (r' :: as') (congrArg Nat.succ length))
    (unary : ∀ l o x t x', motive (.unary l o x t) [x'] rfl)
    (binary : ∀ l o x y t x' y', motive (.binary l o x y t) [x', y'] rfl)
    (conditional : ∀ l c x y c' x' y', motive (.conditional l c x y) [c', x', y'] rfl)
    (lambda : ∀ l ps b b', motive (.lambda l ps b) [b'] rfl)
    (bare : ∀ l, motive (.bare l) [] rfl)
    (e : Expr) (cs : List Expr) (length : cs.length = e.children.length) :
    motive e cs length := by
  have hlength := length
  cases e <;>
    simp only [children, operands, items, List.nil_append, List.append_nil, List.cons_append,
      List.length_nil, List.length_cons, Nat.zero_add, Nat.reduceAdd, List.length_eq_zero_iff,
      List.length_eq_one_iff, List.length_eq_two, List.length_eq_three] at hlength
  case absent =>
    subst hlength
    exact absent
  case constant l v t =>
    subst hlength
    exact constant l v t
  case parameter l n t =>
    subst hlength
    exact parameter l n t
  case bare l =>
    subst hlength
    exact bare l
  case member l r p =>
    obtain ⟨r', rfl⟩ := hlength
    exact member l r p r'
  case index l r p as =>
    obtain ⟨r', as', rfl⟩ := List.exists_cons_of_length_eq_add_one hlength
    exact index l r p as r' as' (Nat.succ.inj length)
  case assign l t v =>
    obtain ⟨t', v', rfl⟩ := hlength
    exact assign l t v t' v'
  case call l r m as =>
    obtain ⟨r', as', rfl⟩ := List.exists_cons_of_length_eq_add_one hlength
    exact call l r m as r' as' (Nat.succ.inj length)
  case unary l o x t =>
    obtain ⟨x', rfl⟩ := hlength
    exact unary l o x t x'
  case binary l o x y t =>
    obtain ⟨x', y', rfl⟩ := hlength
    exact binary l o x y t x' y'
  case conditional l c x y =>
    obtain ⟨c', x', y', rfl⟩ := hlength
    exact conditional l c x y c' x' y'
  case lambda l ps b =>
    obtain ⟨b', rfl⟩ := hlength
    exact lambda l ps b b'

/-- The nodes of a tree are those of its children, in order, and then its root. -/
theorem nodes_eq_flatMap_children (e : Expr) :
    e.nodes = e.children.flatMap nodes ++ if e.isAbsent then [] else [e] := by
  cases e <;> simp [nodes, children, operands, items, isAbsent, nodesAll_eq_flatMap]

/-- A node of a tree is its root or a node of one of its children. -/
theorem mem_nodes_iff (n e : Expr) :
    n ∈ e.nodes ↔ (∃ c ∈ e.children, n ∈ c.nodes) ∨ e.isAbsent = false ∧ n = e := by
  rw [nodes_eq_flatMap_children]
  cases h : e.isAbsent <;> simp

/-- The nodes of a child are nodes of the tree. -/
theorem mem_nodes_of_mem_children {n c e : Expr} (hc : c ∈ e.children) (hn : n ∈ c.nodes) :
    n ∈ e.nodes := (mem_nodes_iff n e).mpr (.inl ⟨c, hc, hn⟩)

/-- A tree that is there is one of its nodes. -/
theorem self_mem_nodes {e : Expr} (h : e.isAbsent = false) : e ∈ e.nodes :=
  (mem_nodes_iff e e).mpr (.inr ⟨h, rfl⟩)

/-- The nodes of one sort in a tree are those of its children, in order, and then its root if it is
one. -/
theorem filter_nodes_eq_flatMap_children {sort : Expr → Bool} (habsent : sort absent = false)
    (e : Expr) :
    e.nodes.filter sort =
      e.children.flatMap (fun c => c.nodes.filter sort) ++ if sort e then [e] else [] := by
  have hroot : (if e.isAbsent then [] else [e]).filter sort = if sort e then [e] else [] := by
    cases e <;> simp [isAbsent, habsent, List.filter_cons]
  rw [nodes_eq_flatMap_children, List.filter_append, hroot, List.filter_flatMap]

/-- The accessor calls of a tree are those of its children in turn, and behind them its root if that
is one. -/
theorem accessorCalls_eq_flatMap_children (e : Expr) :
    e.accessorCalls =
      e.children.flatMap accessorCalls ++ if e.isAccessorShaped then [e] else [] :=
  filter_nodes_eq_flatMap_children rfl e

/-- A tree is normal if its root is no accessor call and its children are normal. -/
theorem normal_iff_children (e : Expr) :
    e.Normal ↔ e.isAccessorShaped = false ∧ ∀ c ∈ e.children, c.Normal := by
  simp only [normal_iff_accessorCalls_eq_nil]
  rw [accessorCalls_eq_flatMap_children e, List.append_eq_nil_iff, List.flatMap_eq_nil_iff]
  cases e.isAccessorShaped <;> simp

/-- Only the absent expression is absent. -/
theorem eq_absent_of_isAbsent {e : Expr} (h : e.isAbsent = true) : e = .absent := by
  cases e with
  | absent => rfl
  | _ => cases h

/-- A node of some kind is there. -/
theorem isAbsent_of_kind? {e : Expr} {k : Kind} (h : e.kind? = some k) : e.isAbsent = false := by
  cases e with
  | absent => cases h
  | _ => rfl

/-- A complete tree is there. -/
theorem isAbsent_of_complete {e : Expr} (h : e.complete = true) : e.isAbsent = false := by
  cases e with
  | absent => cases h
  | _ => rfl

/-- Whether a node that is a call goes to a method. -/
def callsMethod : Expr → Bool
  | call _ _ m _ => m.isMethod
  | _ => true

/-- All children have to be there but a receiver. -/
theorem required_eq (e : Expr) :
    e.required = if e.hasReceiver then e.children.tail else e.children := by
  cases e <;> rfl

/-- A tree is complete if its root has a kind, a call goes to a method, only a receiver is absent,
and all children that are there are complete. -/
theorem complete_iff_children (e : Expr) :
    e.complete = true ↔ e.kind?.isSome = true ∧ e.callsMethod = true ∧
      (∀ c ∈ e.required, c.isAbsent = false) ∧
      ∀ c ∈ e.children, c.isAbsent = false → c.complete = true := by
  have hthere : ∀ c : Expr, c.complete = true → c.isAbsent = false := by
    intro c
    exact isAbsent_of_complete
  cases e <;>
    simp only [complete, completeAll_eq_all, kind?, callsMethod, required, hasReceiver, children,
      operands, items] <;>
    grind

/-- A bound on the labels of a tree holds for its children. -/
theorem labelsBelow_of_mem_children {n : Label} {e c : Expr} (h : e.labelsBelow n = true)
    (hc : c ∈ e.children) : c.labelsBelow n = true := by
  cases e <;>
    simp only [labelsBelow, labelsBelowAll_eq_all, children, operands, items] at h hc <;>
    grind

/-- A bound on the labels of a tree holds for the label of its root. -/
theorem label_lt_of_labelsBelow {n l : Label} {e : Expr} (h : e.labelsBelow n = true)
    (hl : e.label? = some l) : l < n := by
  cases e <;> simp [labelsBelow, label?] at h hl <;> grind

/-- A bound on labels may be raised. -/
theorem labelsBelow_mono {n m : Label} (hnm : n ≤ m) (e : Expr) (h : e.labelsBelow n = true) :
    e.labelsBelow m = true := by
  induction e with
  | absent => rfl
  | _ =>
    simp only [labelsBelow, labelsBelowAll_eq_all, List.all_eq_true, Bool.and_eq_true,
      decide_eq_true_eq] at h ⊢
    grind

end CanonicalAccess.Expr
