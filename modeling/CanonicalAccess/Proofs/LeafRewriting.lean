import CanonicalAccess.Proofs.Modularity
import CanonicalAccess.Proofs.Parallel

/-!
# Rewriting leaves

A transformer that decides about constants and parameters only, and answers each of them with the
leaf itself or with a new one of its kind, is a map of trees. Every leaf is passed to it once, from
left to right; what it answers stands in the place of the leaf, and all else stays as it was
(`Parallel Kept`). A subtree is handed back itself exactly if all its leaves are.

`RewritesTo` says this of the visit of a tree, or of a part of one. Leaves and the nodes above them
are the two cases of it, and `rewritesTo` puts them together to a walk.
-/

set_option autoImplicit false

namespace CanonicalAccess

open CanonicalAccess.Expr (Parallel Faithful)

/-! ### Leaves -/

namespace Expr

/-- A leaf: a constant, or a parameter that is used. -/
def isLeaf : Expr → Bool
  | constant .. | parameter .. => true
  | _ => false

/-- The leaves of a tree from left to right, each once for every place it has. The parameters that a
lambda declares are none. -/
def leafNodes (e : Expr) : List Expr := e.nodes.filter isLeaf

/-- The leaves of a tree are those of its children in turn, or the tree itself if it is one. -/
theorem leafNodes_eq_flatMap_children (e : Expr) :
    e.leafNodes = e.children.flatMap leafNodes ++ if e.isLeaf then [e] else [] :=
  filter_nodes_eq_flatMap_children rfl e

/-- A leaf has itself for a leaf. -/
theorem leafNodes_of_isLeaf {e : Expr} (h : e.isLeaf = true) : e.leafNodes = [e] := by
  cases e with
  | constant | parameter => rfl
  | _ => cases h

/-- A tree that is no leaf has the leaves of its children. -/
theorem leafNodes_of_not_isLeaf {e : Expr} (h : e.isLeaf = false) :
    e.leafNodes = e.children.flatMap leafNodes := by
  rw [leafNodes_eq_flatMap_children, h]
  simp

/-- Whatever is among the leaves of a tree is a leaf. -/
theorem isLeaf_of_mem_leafNodes {e l : Expr} (h : l ∈ e.leafNodes) : l.isLeaf = true :=
  (List.mem_filter.mp h).2

/-- A leaf has no children. -/
theorem children_of_isLeaf {e : Expr} (h : e.isLeaf = true) : e.children = [] := by
  cases e with
  | constant | parameter => rfl
  | _ => cases h

/-- Whether a node is a leaf depends on its kind. -/
theorem isLeaf_eq_of_kind?_eq {e r : Expr} (h : r.kind? = e.kind?) : r.isLeaf = e.isLeaf := by
  cases e <;> cases r <;> first | rfl | cases h

/-- To be the same node is symmetric. -/
theorem same_comm (e r : Expr) : e.same r = r.same e := Bool.beq_comm

/-- Lists hold the same nodes if their first parts do and the rest does. -/
theorem sameAll_append {es es' rs rs' : List Expr} (h : es.length = rs.length) :
    sameAll (es ++ es') (rs ++ rs') = (sameAll es rs && sameAll es' rs') := by
  induction es generalizing rs with
  | nil =>
    obtain rfl := List.length_eq_zero_iff.mp h.symm
    rfl
  | cons e es ih =>
    obtain ⟨r, rs, rfl⟩ := List.exists_cons_of_length_eq_add_one h.symm
    rw [List.cons_append, List.cons_append, sameAll, sameAll, ih (Nat.succ.inj h), Bool.and_assoc]

/-- A node with children is no leaf. -/
theorem isLeaf_eq_false {e : Expr} (h : e.children ≠ []) : e.isLeaf = false := by
  rw [Bool.eq_false_iff]
  exact fun he => h (children_of_isLeaf he)

/-- A tree in which nothing is missing but receivers, and every node has a kind. -/
def Filled (e : Expr) : Prop :=
  e.isAbsent = false ∧ ∀ n ∈ e.nodes, n.kind?.isSome = true ∧ ∀ c ∈ n.required, c.isAbsent = false

instance (e : Expr) : Decidable e.Filled :=
  inferInstanceAs (Decidable (_ ∧ ∀ n ∈ e.nodes, _ ∧ ∀ c ∈ n.required, _))

/-- A tree is filled if its root has a kind, nothing that has to be there is missing, and its
children are filled where they are there. -/
theorem filled_iff_children (e : Expr) :
    e.Filled ↔ e.kind?.isSome = true ∧ (∀ c ∈ e.required, c.isAbsent = false) ∧
      ∀ c ∈ e.children, c.isAbsent = false → c.Filled := by
  constructor
  · rintro ⟨hpresent, hnodes⟩
    obtain ⟨hkind, hrequired⟩ := hnodes e (self_mem_nodes hpresent)
    refine ⟨hkind, hrequired, fun c hc hthere => ⟨hthere, fun n hn => ?_⟩⟩
    exact hnodes n (mem_nodes_of_mem_children hc hn)
  · rintro ⟨hkind, hrequired, hchildren⟩
    obtain ⟨k, hk⟩ := Option.isSome_iff_exists.mp hkind
    refine ⟨isAbsent_of_kind? hk, fun n hn => ?_⟩
    rcases (mem_nodes_iff n e).mp hn with ⟨c, hc, hn⟩ | ⟨-, rfl⟩
    · cases hthere : c.isAbsent with
      | true =>
        rw [eq_absent_of_isAbsent hthere] at hn
        cases hn
      | false => exact (hchildren c hc hthere).2 n hn
    · exact ⟨hkind, hrequired⟩

/-- What takes the place of a node where leaves are rewritten: a node of its kind, which agrees with
it in all but label and children if it is no leaf. -/
structure Kept (e r : Expr) : Prop where
  kind : r.kind? = e.kind?
  head : e.isLeaf = false → r.head = e.head

end Expr

/-! ### Rewriters -/

/-- What a leaf is answered with: itself, or a new leaf of its kind. -/
structure Expr.Answered (e : Expr) (w : Work) (r : Expr) (w' : Work) : Prop where
  kind : r.kind? = e.kind?
  grows : w.nextLabel ≤ w'.nextLabel
  new : r = e ∨ ∃ l, r.label? = some l ∧ w.nextLabel ≤ l ∧ l < w'.nextLabel

/-- The label of what a leaf is answered with is taken. -/
theorem Expr.Answered.labelsBelow {e r : Expr} {w w' : Work} (h : e.Answered w r w')
    (he : e.isLeaf = true) (known : e.labelsBelow w.nextLabel = true) :
    r.labelsBelow w'.nextLabel = true := by
  rcases h.new with rfl | ⟨l, hl, -, hlt⟩
  · exact Expr.labelsBelow_mono h.grows r known
  · have hleaf := (isLeaf_eq_of_kind?_eq h.kind).trans he
    cases r with
    | constant | parameter =>
      cases hl
      simpa [Expr.labelsBelow] using hlt
    | _ => cases hleaf

namespace Transformer

/-- What a transformer answers to a leaf. -/
def onLeaf (f : Transformer) (e : Expr) : Transform Expr :=
  match e with
  | .constant .. => f.onConstant e
  | .parameter .. => f.onParameter e
  | e => pure e

/-- A transformer does nothing of its own but at leaves. -/
structure DecidesLeaves (f : Transformer) : Prop where
  enter : ∀ k, f.enter k = pure ()
  onCall : ∀ call receiver arguments,
    f.onCall call receiver arguments = call.update [receiver] arguments
  onUnary : ∀ operation operand, f.onUnary operation operand = operation.update [operand] []

/-- A transformer rewrites leaves: it answers each of them, and does nothing of its own elsewhere.
-/
structure RewritesLeaves (f : Transformer) : Prop extends DecidesLeaves f where
  answers : ∀ e w, e.isLeaf = true → ∃ r w', f.onLeaf e w = .ok r w' ∧ e.Answered w r w'

/-- Leaves are passed to a transformer one after the other, and the answers come in the same order.
In between labels may be taken, and nothing else happens. -/
inductive Passes (f : Transformer) : List Expr → Work → List Expr → Work → Prop where
  | nil (w : Work) : Passes f [] w [] w
  | label {es rs : List Expr} {w w' : Work} (n : Label) (le : w.nextLabel ≤ n)
      (rest : Passes f es { w with nextLabel := n } rs w') : Passes f es w rs w'
  | leaf {e r : Expr} {es rs : List Expr} {w w₁ w' : Work} (answer : f.onLeaf e w = .ok r w₁)
      (rest : Passes f es w₁ rs w') : Passes f (e :: es) w (r :: rs) w'

/-- Leaves may be passed in two portions. -/
theorem Passes.append {f : Transformer} {es es' rs rs' : List Expr} {w w₁ w' : Work}
    (h : f.Passes es w rs w₁) (h' : f.Passes es' w₁ rs' w') :
    f.Passes (es ++ es') w (rs ++ rs') w' := by
  induction h with
  | nil w => exact h'
  | label n le _ ih => exact .label n le (ih h')
  | leaf answer _ ih => exact .leaf answer (ih h')

/-- There are as many answers as leaves. -/
theorem Passes.length_eq {f : Transformer} {es rs : List Expr} {w w' : Work}
    (h : f.Passes es w rs w') : es.length = rs.length := by
  induction h with
  | nil w => rfl
  | label n le _ ih => exact ih
  | leaf answer _ ih => rw [List.length_cons, List.length_cons, ih]

/-- At a leaf a transformer concludes as it decides about leaves. -/
theorem conclude_of_isLeaf {f : Transformer} {e : Expr} (h : e.isLeaf = true) (cs : List Expr) :
    f.conclude e cs = f.onLeaf e := by
  cases e with
  | constant | parameter => rfl
  | _ => cases h

/-- Above the leaves nodes are refitted. -/
theorem DecidesLeaves.conclude_of_not_isLeaf {f : Transformer} (hf : f.DecidesLeaves) {e : Expr}
    {cs : List Expr} (hlen : cs.length = e.children.length) (h : e.isLeaf = false) :
    f.conclude e cs = e.refit cs := by
  induction e, cs, hlen using Expr.children_cases with
  | constant | parameter => cases h
  | call l r m as r' as' => exact hf.onCall _ _ _
  | unary l o x t x' => exact hf.onUnary _ _
  | _ => rfl

namespace RewritesLeaves

variable {f : Transformer}

/-- A leaf is answered with itself or a new leaf of its kind. -/
theorem answered (hf : f.RewritesLeaves) {e r : Expr} {w w' : Work} (he : e.isLeaf = true)
    (h : f.onLeaf e w = .ok r w') : e.Answered w r w' := by
  obtain ⟨r', w₁, hanswer, hanswered⟩ := hf.answers e w he
  rw [h] at hanswer
  cases hanswer
  exact hanswered

/-- What rewrites leaves is careful. -/
theorem careful (hf : f.RewritesLeaves) : f.Careful where
  enter := by
    intro k w w' h
    rw [hf.enter] at h
    cases h
    exact Nat.le_refl _
  conclude := by
    intro e cs w r w' h
    cases he : e.isLeaf with
    | true =>
      rw [conclude_of_isLeaf he] at h
      obtain ⟨-, grows, new⟩ := hf.answered he h
      refine ⟨grows, new.imp_right ?_⟩
      rintro ⟨l, hl, hle, -⟩
      exact ⟨l, hl, hle⟩
    | false =>
      unfold Transformer.conclude at h
      split at h
      · cases he
      · cases he
      · rw [hf.onCall] at h
        exact Expr.update_sameOrNew h
      · rw [hf.onUnary] at h
        exact Expr.update_sameOrNew h
      · exact Expr.refit_sameOrNew h

/-- Nothing that a filled tree may hold stops the walk. -/
theorem exists_visit (hf : f.RewritesLeaves) {e : Expr} (filled : e.isAbsent = false → e.Filled)
    (w : Work) : ∃ r w', f.Visit e w r w' := by
  induction e using Expr.children_induction generalizing w with
  | step e ih =>
    by_cases habsent : e.isAbsent = true
    · obtain rfl := Expr.eq_absent_of_isAbsent habsent
      exact ⟨.absent, w, rfl⟩
    · have hpresent : e.isAbsent = false := by simpa using habsent
      obtain ⟨hk, hrequired, hchildren⟩ := (Expr.filled_iff_children e).mp (filled hpresent)
      obtain ⟨k, hk⟩ := Option.isSome_iff_exists.mp hk
      obtain ⟨cs, w₁, hcs⟩ := Transform.exists_inOrder
        (fun c hc => ih c hc (hchildren c hc)) w
      have hconclude : ∃ r w', f.conclude e cs w₁ = .ok r w' := by
        cases he : e.isLeaf with
        | true =>
          obtain ⟨r, w', hanswer, -⟩ := hf.answers e w₁ he
          exact ⟨r, w', by rw [conclude_of_isLeaf he, hanswer]⟩
        | false =>
          have hlen := Transform.length_of_inOrder hcs
          rw [List.length_map] at hlen
          obtain ⟨r, n, hrefit, -, -⟩ := e.exists_refit cs w₁
          exact ⟨r, _, by rw [hf.conclude_of_not_isLeaf hlen he, hrefit]⟩
      obtain ⟨r, w', hconclude⟩ := hconclude
      refine ⟨r, w', ?_⟩
      rw [Visit, apply_of_present f hpresent, accept_eq_conclude f hk, hf.enter, pure_bind,
        visits_eq_map_apply f hrequired, Transform.bind_eq_ok_iff]
      exact ⟨cs, w₁, hcs, hconclude⟩

/-- A node above the leaves has what its children became for children. -/
theorem children_of_conclude (hf : f.RewritesLeaves) {e r : Expr} {cs : List Expr} {w w' : Work}
    (hcs : Faithful e.children cs) (he : e.isLeaf = false)
    (h : f.conclude e cs w = .ok r w') : r.children = cs := by
  have hlen := hcs.length_eq.symm
  rw [hf.conclude_of_not_isLeaf hlen he] at h
  rcases Expr.refit_ok hcs h with ⟨rfl, rfl, -⟩ | ⟨-, rfl, -⟩
  · rfl
  · exact Expr.children_rebuild hlen

end RewritesLeaves

/-! ### What becomes of a tree -/

/-- What a walk that rewrites leaves has done with a tree: its leaves were passed in order and their
answers are in the places of the leaves, all else is kept, and the tree is handed back itself
exactly if all of its leaves are. -/
structure RewritesTo (f : Transformer) (e : Expr) (w : Work) (r : Expr) (w' : Work) : Prop where
  passes : f.Passes e.leafNodes w r.leafNodes w'
  parallel : Parallel Expr.Kept e r
  same_iff : r.same e = true ↔ Expr.sameAll e.leafNodes r.leafNodes = true

namespace RewritesTo

variable {f : Transformer}

/-- Where nothing stands, nothing is rewritten. -/
theorem absent (w : Work) : f.RewritesTo .absent w .absent w where
  passes := .nil w
  parallel := .intro ⟨rfl, fun _ => rfl⟩ .nil
  same_iff := by simp [Expr.same, Expr.leafNodes, Expr.nodes]

/-- A leaf is rewritten to its answer. -/
theorem leaf {e r : Expr} {w w' : Work} (he : e.isLeaf = true) (h : f.onLeaf e w = .ok r w')
    (hr : e.Answered w r w') : f.RewritesTo e w r w' := by
  have hleaf : r.isLeaf = true := (Expr.isLeaf_eq_of_kind?_eq hr.kind).trans he
  have hleaves := Expr.leafNodes_of_isLeaf he
  have hleaves' := Expr.leafNodes_of_isLeaf hleaf
  refine ⟨?_, .intro ⟨hr.kind, fun hinner => ?_⟩ ?_, ?_⟩
  · rw [hleaves, hleaves']
    exact .leaf h (.nil w')
  · rw [he] at hinner
    cases hinner
  · rw [Expr.children_of_isLeaf he, Expr.children_of_isLeaf hleaf]
    exact .nil
  · rw [hleaves, hleaves', Expr.sameAll, Expr.sameAll, Bool.and_true, Expr.same_comm]

/-- Visits of children, in order, pass their leaves in order. -/
theorem passes_of_visits {es rs : List Expr} {w w' : Work} (h : Visits f.RewritesTo es w rs w') :
    f.Passes (es.flatMap Expr.leafNodes) w (rs.flatMap Expr.leafNodes) w' := by
  induction h with
  | nil w => exact .nil w
  | cons head _ ih =>
    rw [List.flatMap_cons, List.flatMap_cons]
    exact head.passes.append ih

/-- Children are handed back themselves exactly if all of their leaves are. -/
theorem sameAll_of_visits {es rs : List Expr} {w w' : Work} (h : Visits f.RewritesTo es w rs w') :
    Expr.sameAll es rs = true ↔
      Expr.sameAll (es.flatMap Expr.leafNodes) (rs.flatMap Expr.leafNodes) = true := by
  induction h with
  | nil w => exact Iff.rfl
  | @cons e r es rs _ _ _ head _ ih =>
    rw [List.flatMap_cons, List.flatMap_cons, Expr.sameAll_append head.passes.length_eq,
      Expr.sameAll, Bool.and_eq_true, Bool.and_eq_true, ih, Expr.same_comm, head.same_iff]

/-- A node above the leaves is handed back itself exactly if its children are, and else rebuilt. -/
theorem node (hf : f.RewritesLeaves) {e r : Expr} {cs : List Expr} {w w₁ w' : Work}
    (he : e.isLeaf = false) (known : e.labelsBelow w₁.nextLabel = true)
    (hfaithful : Faithful e.children cs) (hvisits : Visits f.RewritesTo e.children w cs w₁)
    (h : f.conclude e cs w₁ = .ok r w') : f.RewritesTo e w r w' := by
  have hlen := hfaithful.length_eq.symm
  have hleaves := Expr.leafNodes_of_not_isLeaf he
  have hparallel : List.Forall₂ (Parallel Expr.Kept) e.children cs :=
    (hvisits.imp fun _ _ _ _ _ hc => hc.parallel).related
  have hpasses := passes_of_visits hvisits
  have hsame := hfaithful.sameAll_iff.symm.trans (sameAll_of_visits hvisits)
  rw [← hleaves] at hpasses hsame
  have hchildren := hf.children_of_conclude hfaithful he h
  rw [hf.conclude_of_not_isLeaf hlen he] at h
  rcases Expr.refit_ok hfaithful h with ⟨rfl, rfl, rfl⟩ | ⟨hne, rfl, rfl⟩
  · rw [← hleaves] at hpasses
    exact ⟨hpasses, .intro ⟨rfl, fun _ => rfl⟩ hparallel, by simp⟩
  · have hkind := Expr.kind?_rebuild (l := w₁.nextLabel) hlen
    have hinner := (Expr.isLeaf_eq_of_kind?_eq hkind).trans he
    have hleaves' := Expr.leafNodes_of_not_isLeaf hinner
    rw [hchildren] at hleaves'
    have hnew := Expr.same_eq_false_of_new known (Expr.label?_rebuild (l := w₁.nextLabel) hlen hne)
      (Nat.le_refl _)
    refine ⟨?_, .intro ⟨hkind, fun _ => Expr.head_rebuild hlen⟩ ?_, ?_⟩
    · -- The label of the node rebuilt is taken after the last leaf was passed.
      have hlabel := hpasses.append (.label _ (Nat.le_succ w₁.nextLabel) (.nil _))
      rwa [List.append_nil, List.append_nil, ← hleaves'] at hlabel
    · rwa [hchildren]
    · rw [hnew, hleaves', ← hsame]
      exact ⟨nofun, fun heq => absurd heq hne⟩

end RewritesTo

namespace RewritesLeaves

variable {f : Transformer}

/-- A visit by what rewrites leaves rewrites the tree. -/
theorem rewritesTo (hf : f.RewritesLeaves) {e r : Expr} {w w' : Work}
    (known : e.labelsBelow w.nextLabel = true) (h : f.Visit e w r w') : f.RewritesTo e w r w' := by
  refine known_walk_induction hf.careful RewritesTo.absent ?_ known h
  intro e k w w₁ cs w₂ r w' _ henter known hfaithful hvisits _ hconclude
  rw [hf.enter] at henter
  cases henter
  cases he : e.isLeaf with
  | true =>
    rw [Expr.children_of_isLeaf he] at hvisits
    cases hvisits
    rw [conclude_of_isLeaf he] at hconclude
    exact .leaf he hconclude (hf.answered he hconclude)
  | false => exact .node hf he known hfaithful hvisits hconclude

/-- A visit answers with a tree whose labels are taken. -/
theorem labelsBelow_of_visit (hf : f.RewritesLeaves) {e r : Expr} {w w' : Work}
    (known : e.labelsBelow w.nextLabel = true) (h : f.Visit e w r w') :
    r.labelsBelow w'.nextLabel = true := by
  refine (Transformer.labelsBelow_of_visit hf.careful ?_ known h).2
  intro e cs w r w' hfaithful known hcs hconclude
  cases he : e.isLeaf with
  | true =>
    rw [conclude_of_isLeaf he] at hconclude
    exact (hf.answered he hconclude).labelsBelow he known
  | false =>
    rw [hf.conclude_of_not_isLeaf hfaithful.length_eq.symm he] at hconclude
    exact Expr.labelsBelow_of_refit hfaithful known hcs hconclude

/-- A walk comes to every position, and what it hands back there is in the same place of the result.
-/
theorem walkTo_of_visit (hf : f.RewritesLeaves) {path : Expr.Path} {e r s : Expr} {w w' : Work}
    (known : e.labelsBelow w.nextLabel = true) (h : f.Visit e w r w')
    (hs : e.subtree? path = some s) :
    ∃ v s' v', f.walkTo path e w = .ok s v ∧ s.labelsBelow v.nextLabel = true ∧
      f.Visit s v s' v' ∧ r.subtree? path = some s' := by
  induction path generalizing e r w w' with
  | nil =>
    cases hs
    exact ⟨w, r, w', rfl, known, h, rfl⟩
  | cons i path ih =>
    rw [Expr.subtree?] at hs
    cases hc : e.children[i]? with
    | none =>
      rw [hc] at hs
      cases hs
    | some c =>
      rw [hc] at hs
      obtain ⟨k, w₁, before, v, c', v', after, w₂, henter, hfirst, hi, hle, hvisit, hvisits,
        hconclude⟩ := visit_child hf.careful h hc
      rw [hf.enter] at henter
      cases henter
      have hknown : ∀ c ∈ e.children, c.labelsBelow w.nextLabel = true :=
        fun c hc => Expr.labelsBelow_of_mem_children known hc
      have hmem := List.mem_of_getElem? hc
      obtain ⟨v₁, s', v₁', hwalk, hhere, hresult, hplace⟩ :=
        ih (Expr.labelsBelow_mono hle c (hknown c hmem)) hvisit hs
      refine ⟨v₁, s', v₁', ?_, hhere, hresult, ?_⟩
      · rw [walkTo, hc]
        exact (Transform.bind_eq_ok_iff _ _ _ _ _).mpr ⟨before, v, hfirst, hwalk⟩
      · have he := Expr.isLeaf_eq_false (List.ne_nil_of_mem hmem)
        obtain ⟨hfaithful, -⟩ := hvisits.faithful hf.careful hknown
        rw [Expr.subtree?, hf.children_of_conclude hfaithful he hconclude, ← hi,
          List.getElem?_append_right (Nat.le_refl _), Nat.sub_self, List.getElem?_cons_zero]
        exact hplace

end RewritesLeaves

end Transformer

end CanonicalAccess
