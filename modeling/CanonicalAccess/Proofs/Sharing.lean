import CanonicalAccess.Proofs.Settlement
import CanonicalAccess.Transformation.Stock

/-!
# Exact sharing

What a walk of the normalizer hands back for a subtree, at whatever position, is the subtree itself
exactly if there is no accessor call in it. A subtree without one is never copied, and above one
that was settled no node is kept. So the count of calls settled tells whether the tree changed.
-/

set_option autoImplicit false

namespace CanonicalAccess

namespace Transform

variable {α : Type}

/-- Computations in order are those before one of them, that one, and those after it. -/
theorem inOrder_split {xs : List (Transform α)} {x : Transform α} {i : Nat}
    (hx : xs[i]? = some x) :
    inOrder xs = (do
      let before ← inOrder (xs.take i)
      let a ← x
      let after ← inOrder (xs.drop (i + 1))
      return before ++ a :: after) := by
  induction xs generalizing i with
  | nil => simp at hx
  | cons y ys ih =>
    cases i with
    | zero =>
      rw [List.getElem?_cons_zero, Option.some.injEq] at hx
      subst hx
      simp [inOrder]
    | succ i =>
      rw [List.getElem?_cons_succ] at hx
      simp [inOrder, ih hx]

/-- Computations in order take no label back if none of them does. -/
theorem nextLabel_le_of_inOrder {xs : List (Transform α)} {as : List α} {w w' : Work}
    (hxs : ∀ x ∈ xs, ∀ v a v', x v = .ok a v' → v.nextLabel ≤ v'.nextLabel)
    (h : inOrder xs w = .ok as w') : w.nextLabel ≤ w'.nextLabel := by
  induction xs generalizing as w with
  | nil =>
    cases h
    exact Nat.le_refl _
  | cons x xs ih =>
    rw [List.forall_mem_cons] at hxs
    obtain ⟨a, w₁, hx, h⟩ := (bind_eq_ok_iff _ _ _ _ _).mp h
    obtain ⟨as', w₂, hrest, h⟩ := (bind_eq_ok_iff _ _ _ _ _).mp h
    cases h
    exact Nat.le_trans (hxs.1 w a w₁ hx) (ih hxs.2 hrest)

end Transform

namespace Transformer

/-- Each of the children was visited. -/
theorem Visits.of_mem {visit : Expr → Work → Expr → Work → Prop} {cs cs' : List Expr} {w w' : Work}
    (h : Visits visit cs w cs' w') {c : Expr} (hc : c ∈ cs) : ∃ v c' v', visit c v c' v' := by
  induction h with
  | nil w => cases hc
  | cons head _ ih =>
    rcases List.mem_cons.mp hc with rfl | hc
    · exact ⟨_, _, _, head⟩
    · exact ih hc

variable {f : Transformer}

/-! A walk that succeeds comes to every position, and the visit that starts there succeeds. -/

/-- In a successful visit of a node, the children before any one are visited, then that one, and
then those after it; what they became is what the node is concluded with. -/
theorem visit_child (hf : f.Careful) {e r c : Expr} {w w' : Work} {i : Nat} (h : f.Visit e w r w')
    (hc : e.children[i]? = some c) :
    ∃ k w₁ before v c' v' after w₂, f.enter k w = .ok () w₁ ∧ f.visitFirst e i w = .ok before v ∧
      before.length = i ∧ w.nextLabel ≤ v.nextLabel ∧ f.Visit c v c' v' ∧
      Visits f.Visit e.children w₁ (before ++ c' :: after) w₂ ∧
      f.conclude e (before ++ c' :: after) w₂ = .ok r w' := by
  have hpresent : e.isAbsent = false := by
    cases e with
    | absent => simp [Expr.children, Expr.operands, Expr.items] at hc
    | _ => rfl
  obtain ⟨k, -, -, -, hk, -, -, hrequired, -⟩ := visit_node h hpresent
  rw [Visit, apply_of_present f hpresent, accept_eq_conclude f hk] at h
  obtain ⟨⟨⟩, w₁, henter, h⟩ := (Transform.bind_eq_ok_iff _ _ _ _ _).mp h
  obtain ⟨cs, w₂, hcs, hconclude⟩ := (Transform.bind_eq_ok_iff _ _ _ _ _).mp h
  obtain ⟨hvisits, -⟩ := visits_of_inOrder hcs
  have hx : (e.children.map f.apply)[i]? = some (f.apply c) := by
    rw [List.getElem?_map, hc, Option.map_some]
  rw [visits_eq_map_apply f hrequired, Transform.inOrder_split hx, ← List.map_take] at hcs
  obtain ⟨before, v, hbefore, hcs⟩ := (Transform.bind_eq_ok_iff _ _ _ _ _).mp hcs
  obtain ⟨c', v', hvisit, hcs⟩ := (Transform.bind_eq_ok_iff _ _ _ _ _).mp hcs
  obtain ⟨after, v₂, -, hcs⟩ := (Transform.bind_eq_ok_iff _ _ _ _ _).mp hcs
  cases hcs
  refine ⟨k, w₁, before, v, c', v', after, w₂, henter, ?_, ?_, ?_, hvisit, hvisits, hconclude⟩
  · rw [visitFirst, hk, visits_eq_map_apply f hrequired, ← List.map_take]
    exact (Transform.bind_eq_ok_iff _ _ _ _ _).mpr ⟨(), w₁, henter, hbefore⟩
  · obtain ⟨hi, -⟩ := List.getElem?_eq_some_iff.mp hc
    rw [Transform.length_of_inOrder hbefore, List.length_map, List.length_take]
    omega
  · refine Nat.le_trans (hf.enter k w w₁ henter) (Transform.nextLabel_le_of_inOrder ?_ hbefore)
    intro x hx v a v' hxv
    obtain ⟨b, -, rfl⟩ := List.mem_map.mp hx
    exact (visit_sameOrNew hf hxv).1

/-- A successful visit comes to every position in the tree and visits the subtree there. -/
theorem walkTo_of_visit (hf : f.Careful) {path : Expr.Path} {e r s : Expr} {w w' : Work}
    (h : f.Visit e w r w') (hs : e.subtree? path = some s) :
    ∃ v s' v', f.walkTo path e w = .ok s v ∧ w.nextLabel ≤ v.nextLabel ∧ f.Visit s v s' v' := by
  induction path generalizing e r w w' with
  | nil =>
    cases hs
    exact ⟨w, r, w', rfl, Nat.le_refl _, h⟩
  | cons i path ih =>
    rw [Expr.subtree?] at hs
    cases hc : e.children[i]? with
    | none =>
      rw [hc] at hs
      cases hs
    | some c =>
      rw [hc] at hs
      obtain ⟨-, -, cs, v, c', v', -, -, -, hfirst, -, hle, hvisit, -, -⟩ := visit_child hf h hc
      obtain ⟨v₁, s', v₁', hwalk, hle₁, hresult⟩ := ih hvisit hs
      refine ⟨v₁, s', v₁', ?_, Nat.le_trans hle hle₁, hresult⟩
      rw [walkTo, hc]
      exact (Transform.bind_eq_ok_iff _ _ _ _ _).mpr ⟨cs, v, hfirst, hwalk⟩

end Transformer

/-- A bound on the labels of a tree holds for its subtrees. -/
theorem Expr.labelsBelow_of_subtree? {n : Label} {path : Expr.Path} {e s : Expr}
    (h : e.labelsBelow n = true) (hs : e.subtree? path = some s) : s.labelsBelow n = true := by
  induction path generalizing e with
  | nil =>
    cases hs
    exact h
  | cons i path ih =>
    rw [subtree?] at hs
    cases hc : e.children[i]? with
    | none =>
      rw [hc] at hs
      cases hs
    | some c =>
      rw [hc] at hs
      exact ih (labelsBelow_of_mem_children h (List.mem_of_getElem? hc)) hs

/-- What sharing asks of the result for a subtree: a normal one comes back itself, and in place of
any other there is another node. -/
structure Shared (e r : Expr) : Prop where
  keep : e.Normal → r = e
  renew : ¬ e.Normal → r.same e = false

namespace Shared

variable {e r : Expr} {es cs : List Expr}

/-- A shared tree is handed back exactly if it was normal. -/
theorem same_iff (h : Shared e r) : r.same e = true ↔ e.Normal := by
  constructor
  · intro hsame
    by_contra hnormal
    rw [h.renew hnormal] at hsame
    cases hsame
  · intro hnormal
    rw [h.keep hnormal]
    exact Expr.same_refl e

/-- Children come back unchanged exactly if all of them are normal. -/
theorem forall₂_eq_iff (h : List.Forall₂ Shared es cs) : cs = es ↔ ∀ c ∈ es, c.Normal := by
  induction h with
  | nil => simp
  | @cons c c' es cs head _ ih =>
    rw [List.cons.injEq, ih, List.forall_mem_cons]
    refine and_congr_left fun _ => ?_
    constructor
    · rintro rfl
      exact head.same_iff.mp (Expr.same_refl _)
    · exact head.keep

/-- A node that is no accessor call is kept exactly if its children are. -/
theorem of_refit {w w' : Work} (known : e.labelsBelow w.nextLabel = true)
    (hfaithful : Expr.Faithful e.children cs) (hcs : List.Forall₂ Shared e.children cs)
    (hshaped : e.isAccessorShaped = false) (h : e.refit cs w = .ok r w') : Shared e r := by
  have hnormal : e.Normal ↔ cs = e.children := by
    rw [Expr.normal_iff_children, forall₂_eq_iff hcs]
    exact ⟨And.right, fun hchildren => ⟨hshaped, hchildren⟩⟩
  rcases Expr.refit_ok hfaithful h with ⟨heq, rfl, -⟩ | ⟨hne, rfl, -⟩
  · exact ⟨fun _ => rfl, fun hn => absurd (hnormal.mpr heq) hn⟩
  · have hlabel := Expr.label?_rebuild (l := w.nextLabel) hcs.length_eq.symm hne
    exact ⟨fun hn => absurd (hnormal.mp hn) hne,
      fun _ => Expr.same_eq_false_of_new known hlabel (Nat.le_refl _)⟩

/-- In place of an accessor call there is a new node. -/
theorem of_settled {metadata : Metadata} {w w' : Work} (known : e.labelsBelow w.nextLabel = true)
    (hshaped : e.isAccessorShaped = true) (h : Normalization.Settled metadata e cs w r w') :
    Shared e r := by
  obtain ⟨shape, query, answer, backed⟩ := h
  refine ⟨fun hnormal => ?_, fun _ => ?_⟩
  · rw [((Expr.normal_iff_children _).mp hnormal).1] at hshaped
    cases hshaped
  · obtain ⟨l', hlabel, hle⟩ := Normalization.label?_canonicalNode _ _ _ _ _
    exact Expr.same_eq_false_of_new known hlabel hle

/-- What a visit makes of a tree is shared with it wherever it can be. -/
theorem of_visit {metadata : Metadata} {w w' : Work} (known : e.labelsBelow w.nextLabel = true)
    (h : (Normalization.normalizer metadata).Visit e w r w') : Shared e r := by
  refine Normalization.normalizer_induction ?_ ?_ ?_ known h
  · refine ⟨fun _ => rfl, fun hn => absurd ?_ hn⟩
    simp [Expr.Normal, Expr.nodes]
  · intro e cs w r w' _ _ hshaped known hfaithful hcs _ hrefit
    exact of_refit known hfaithful hcs hshaped hrefit
  · intro e cs w r w' hshaped known _ _ hsettled
    exact of_settled known hshaped hsettled

end Shared

/-! Where there is nothing to settle the normalizer is the transformer that changes nothing. -/

namespace Transformer

variable {f g : Transformer}

/-- Transformers that agree on the children of a node visit them alike. -/
theorem visits_congr {e : Expr} (h : ∀ c ∈ e.children, f.accept c = g.accept c) :
    f.visits e = g.visits e := by
  unfold visits
  cases hchildren : e.children with
  | nil => rfl
  | cons c cs =>
    rw [hchildren, List.forall_mem_cons] at h
    have hcs : cs.map f.accept = cs.map g.accept := List.map_congr_left h.2
    simp only [apply, h.1, hcs]

/-- Transformers that enter nodes alike and conclude alike at the nodes of a tree do the same with
the tree. -/
theorem accept_congr (henter : f.enter = g.enter) {e : Expr}
    (hconclude : ∀ n ∈ e.nodes, ∀ cs : List Expr, cs.length = n.children.length →
      f.conclude n cs = g.conclude n cs) : f.accept e = g.accept e := by
  induction e using Expr.children_induction with
  | step e ih =>
    cases hk : e.kind? with
    | none =>
      cases e with
      | absent | bare l => rfl
      | _ => cases hk
    | some k =>
      have hvisits : f.visits e = g.visits e := by
        refine visits_congr ?_
        intro c hc
        refine ih c hc ?_
        intro n hn
        exact hconclude n (Expr.mem_nodes_of_mem_children hc hn)
      have hroot := hconclude e (Expr.self_mem_nodes (Expr.isAbsent_of_kind? hk))
      rw [accept_eq_conclude f hk, accept_eq_conclude g hk, henter, hvisits]
      -- The conclusions agree only on lists as long as the visits give them.
      congr 1
      funext _ w
      simp only [bind, EStateM.bind]
      cases hrun : Transform.inOrder (g.visits e) w with
      | error fault w₁ => rfl
      | ok cs w₁ =>
        have hlen := Transform.length_of_inOrder hrun
        rw [length_visits] at hlen
        simp only [hroot cs hlen]

/-- The identity gives a node the children that it is handed. -/
theorem conclude_identity {e : Expr} {cs : List Expr} (hlen : cs.length = e.children.length) :
    identity.conclude e cs = e.refit cs := by
  induction e, cs, hlen using Expr.children_cases with
  | constant l v t => exact (Expr.refit_children (.constant l v t)).symm
  | parameter l n t => exact (Expr.refit_children (.parameter l n t)).symm
  | _ => rfl

end Transformer

/-- On a tree without accessor calls the normalizer does what every transformer does. -/
theorem Normalization.accept_eq_identity {metadata : Metadata} {e : Expr} (hnormal : e.Normal)
    (hm : ∀ n ∈ e.nodes, n.callsMethod = true) :
    (normalizer metadata).accept e = Transformer.identity.accept e := by
  have henter : (normalizer metadata).enter = Transformer.identity.enter := rfl
  refine Transformer.accept_congr henter ?_
  intro n hn cs hlen
  rw [conclude_of_not_shaped hlen (hm n hn) (hnormal n hn), Transformer.conclude_identity hlen]

/-- A walk that succeeds meets no call but to methods. -/
theorem Normalization.callsMethod_of_visit {metadata : Metadata} {e r : Expr} {w w' : Work}
    (h : (normalizer metadata).Visit e w r w') : ∀ n ∈ e.nodes, n.callsMethod = true := by
  refine Transformer.visit_induction ?_ ?_ h
  · simp [Expr.nodes]
  · intro e k w w₁ cs w₂ r w' _ _ hvisits _ hconclude n hn
    rcases (Expr.mem_nodes_iff n e).mp hn with ⟨c, hc, hn⟩ | ⟨-, rfl⟩
    · obtain ⟨v, c', v', -, hchild⟩ := hvisits.of_mem hc
      exact hchild n hn
    · exact callsMethod_of_conclude hvisits.length_eq hconclude

/-- Sharing is exact. Where a tree is normalized, new nodes having labels that the tree has not, the
walk comes to every position in it and hands back the subtree there itself if and only if that is
normal. In particular the tree itself comes back exactly if no call was settled, and on a normal
tree the normalizer walks as the transformer that changes nothing does. -/
theorem resultAt_normalize {metadata : Metadata} {t r : Expr} {w w' : Work}
    (known : t.labelsBelow w.nextLabel = true) (h : normalize metadata t w = .ok r w') :
    (∀ path s, t.subtree? path = some s →
      ∃ s' v, (Normalization.normalizer metadata).resultAt path t { w with settled := 0 } =
          .ok s' v ∧ (s'.same s = true ↔ s.Normal) ∧ (s.Normal → s' = s)) ∧
    (r.same t = true ↔ w'.settled = 0) ∧
    (t.Normal →
      (Normalization.normalizer metadata).accept t = Transformer.identity.accept t) := by
  obtain ⟨w₁, haccept, rfl⟩ := normalize_eq_ok_iff.mp h
  obtain ⟨-, hvisit⟩ := Transformer.visit_of_accept haccept
  have hcareful := Normalization.careful_normalizer metadata
  refine ⟨?_, ?_, ?_⟩
  · intro path s hs
    obtain ⟨v, s', v', hwalk, hle, hresult⟩ := Transformer.walkTo_of_visit hcareful hvisit hs
    have knownHere := Expr.labelsBelow_mono hle s (Expr.labelsBelow_of_subtree? known hs)
    have hshared := Shared.of_visit knownHere hresult
    refine ⟨s', v', ?_, hshared.same_iff, hshared.keep⟩
    exact (Transform.bind_eq_ok_iff _ _ _ _ _).mpr ⟨s, v, hwalk, hresult⟩
  · have hshared := Shared.of_visit (w := { w with settled := 0 }) known hvisit
    have hcount := Normalization.settled_of_visit hvisit
    rw [hshared.same_iff, Expr.normal_iff_accessorCalls_eq_nil, ← List.length_eq_zero_iff]
    simp [hcount]
  · intro hnormal
    exact Normalization.accept_eq_identity hnormal (Normalization.callsMethod_of_visit hvisit)

/-- In the copy the row is handed back itself, and the calls are replaced. -/
theorem resultAt_normalize_copyFirst :
    Grid.copyFirst.labelsBelow 6 = true ∧
      (∃ w', normalize Grid.provider Grid.copyFirst (Work.start 6) = .ok Grid.copiedFirst w') ∧
      Grid.copyFirst.subtree? [0, 1] = some Grid.row ∧
      (∃ v, (Normalization.normalizer Grid.provider).resultAt [0, 1] Grid.copyFirst
        (Work.start 6) = .ok Grid.row v) ∧
      Grid.copyFirst.subtree? [0, 2] = some Grid.readFirst ∧
      (∃ s' v, (Normalization.normalizer Grid.provider).resultAt [0, 2] Grid.copyFirst
        (Work.start 6) = .ok s' v ∧ s'.same Grid.readFirst = false) := by
  obtain ⟨hpaths, -, -⟩ := resultAt_normalize (by decide) Grid.normalize_copyFirst
  obtain ⟨row', v, hrow, -, hkeep⟩ := hpaths [0, 1] Grid.row rfl
  obtain ⟨read', v', hread, hiff, -⟩ := hpaths [0, 2] Grid.readFirst rfl
  refine ⟨by decide, ⟨_, Grid.normalize_copyFirst⟩, rfl, ⟨v, ?_⟩, rfl, ⟨read', v', hread, ?_⟩⟩
  · rw [← hkeep (by decide)]
    exact hrow
  · rw [Bool.eq_false_iff, ne_eq, hiff]
    decide

end CanonicalAccess
