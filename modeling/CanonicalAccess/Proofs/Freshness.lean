import CanonicalAccess.Proofs.Walk

/-!
# New nodes have new labels

In place of a node a walk hands back the node itself or a new one, and new nodes have labels that
no node had before. So in a tree whose labels are all taken, what came back is the same node only
if it is the very expression, and comparing labels is enough to see what changed.

The main statements are `visit_sameOrNew`, about one visit, and `known_visit_induction`, an
induction over successful walks through trees whose labels are taken.
-/

set_option autoImplicit false

namespace CanonicalAccess

namespace Expr

/-- What takes the place of a node while labels below `n` are taken: the node itself, or one whose
label was free. -/
def SameOrNew (n : Label) (e r : Expr) : Prop := r = e ∨ ∃ l, r.label? = some l ∧ n ≤ l

/-- What is new at one time was new before. -/
theorem SameOrNew.mono {n m : Label} {e r : Expr} (h : SameOrNew m e r) (hnm : n ≤ m) :
    SameOrNew n e r := by
  rcases h with h | ⟨l, hl, hml⟩
  · exact .inl h
  · exact .inr ⟨l, hl, Nat.le_trans hnm hml⟩

/-- A node with a free label is not the same as one whose label is taken. -/
theorem same_eq_false_of_new {n l : Label} {e r : Expr} (known : e.labelsBelow n = true)
    (hl : r.label? = some l) (hn : n ≤ l) : r.same e = false := by
  cases hs : r.same e with
  | false => rfl
  | true =>
    have heq : e.label? = some l := by
      rw [same, beq_iff_eq] at hs
      rw [← hs, hl]
    exact absurd (label_lt_of_labelsBelow known heq) (Nat.not_lt.mpr hn)

/-- Labels tell whether the node itself came back. -/
theorem SameOrNew.eq_of_same {n : Label} {e r : Expr} (known : e.labelsBelow n = true)
    (h : SameOrNew n e r) (hs : r.same e = true) : r = e := by
  rcases h with h | ⟨l, hl, hn⟩
  · exact h
  · rw [same_eq_false_of_new known hl hn] at hs
    cases hs

/-- In two lists of equal length, expressions that are the same node are equal. -/
def Faithful (es es' : List Expr) : Prop :=
  List.Forall₂ (fun e e' => e'.same e = true → e' = e) es es'

/-- Faithful lists hold the same nodes exactly if they are equal. -/
theorem Faithful.sameAll_iff {es es' : List Expr} (h : Faithful es es') :
    sameAll es es' = true ↔ es' = es := by
  induction h with
  | nil => simp [sameAll]
  | @cons e e' es es' hhead _ ih =>
    have hcomm : e.same e' = e'.same e := by
      unfold same
      exact Bool.beq_comm
    rw [sameAll, Bool.and_eq_true, ih, hcomm, List.cons.injEq]
    constructor
    · rintro ⟨hsame, htail⟩
      exact ⟨hhead hsame, htail⟩
    · rintro ⟨rfl, htail⟩
      exact ⟨same_refl _, htail⟩

/-- Reusing expressions that did not change gives what they became. -/
theorem Faithful.reuse_eq {es es' : List Expr} (h : Faithful es es') :
    Transformer.reuse es es' = es' := by
  have hnone : (Transformer.changes es es').any id = false → es' = es := by
    induction h with
    | nil => simp
    | cons hhead _ ih =>
      intro hany
      simp only [Transformer.changes, List.any_cons, id, Bool.or_eq_false_iff,
        Bool.not_eq_false'] at hany
      rw [hhead hany.1, ih hany.2]
  unfold Transformer.reuse
  cases hany : (Transformer.changes es es').any id with
  | false => exact (hnone hany).symm
  | true => rfl

/-- The node with a new label and other visited children. -/
def rebuild (l : Label) (e : Expr) (cs : List Expr) : Expr :=
  match e, cs with
  | member _ _ p, [r'] => member l r' p
  | index _ _ p _, r' :: as' => index l r' p as'
  | assign _ _ _, [t', v'] => assign l t' v'
  | call _ _ m _, r' :: as' => call l r' m as'
  | unary _ o _ t, [x'] => unary l o x' t
  | binary _ o _ _ t, [x', y'] => binary l o x' y' t
  | conditional _ _ _ _, [c', x', y'] => conditional l c' x' y'
  | lambda _ ps _, [b'] => lambda l ps b'
  | e, _ => e

/-- To refit a node is to update it, be its children one list or two. -/
theorem refit_eq_update {e : Expr} {cs : List Expr} (hcs : Faithful e.children cs) :
    ∃ os is, e.refit cs = e.update os is ∧
      e.hasChildren os is = sameAll e.children cs ∧
      ∀ l, e.withChildren l os is = e.rebuild l cs := by
  have hlen := hcs.length_eq.symm
  induction e, cs, hlen using children_cases with
  | index l r p as r' as' | call l r m as r' as' =>
    obtain ⟨-, has⟩ := List.forall₂_cons.mp hcs
    have hreuse : Transformer.reuse as as' = as' := Faithful.reuse_eq has
    refine ⟨[r'], as', ?_, ?_, fun _ => rfl⟩
    · rw [refit, hreuse]
    · simp [hasChildren, operands, items, children, sameAll]
  | lambda l ps b b' =>
    exact ⟨[b'], ps, rfl, by simp [hasChildren, operands, items, children], fun _ => rfl⟩
  | _ => exact ⟨_, [], rfl, by simp [hasChildren, operands, items, children], fun _ => rfl⟩

/-- To refit a node is to hand it back if its children are its own, and else to rebuild it. -/
theorem refit_ok {e r : Expr} {cs : List Expr} {w w' : Work} (hcs : Faithful e.children cs)
    (h : e.refit cs w = .ok r w') :
    (cs = e.children ∧ r = e ∧ w' = w) ∨
      (cs ≠ e.children ∧ r = e.rebuild w.nextLabel cs ∧
        w' = { w with nextLabel := w.nextLabel + 1 }) := by
  obtain ⟨os, is, hupdate, hhas, hwith⟩ := refit_eq_update hcs
  rw [hupdate, update_apply, hhas, hwith] at h
  by_cases hsame : sameAll e.children cs = true
  · rw [if_pos hsame] at h
    cases h
    exact .inl ⟨hcs.sameAll_iff.mp hsame, rfl, rfl⟩
  · rw [if_neg hsame] at h
    cases h
    exact .inr ⟨fun heq => hsame (hcs.sameAll_iff.mpr heq), rfl, rfl⟩

/-- A node given children and a label of its own is itself. -/
theorem rebuild_self {e : Expr} {l : Label} (hl : e.label? = some l) :
    e.rebuild l e.children = e := by
  cases e <;> cases hl <;> rfl

/-- A node that was refitted is the node rebuilt, under its own label or under a new one. -/
theorem exists_rebuild_of_refit {e r : Expr} {cs : List Expr} {w w' : Work}
    (hk : e.kind?.isSome = true) (hcs : Faithful e.children cs) (h : e.refit cs w = .ok r w') :
    ∃ l, r = e.rebuild l cs := by
  rcases refit_ok hcs h with ⟨rfl, rfl, -⟩ | ⟨-, rfl, -⟩
  · obtain ⟨l, hl⟩ : ∃ l, r.label? = some l := by
      cases r <;> simp [kind?, label?] at hk ⊢
    exact ⟨l, (rebuild_self hl).symm⟩
  · exact ⟨w.nextLabel, rfl⟩

/-- A node that is given its own children stays itself. -/
theorem refit_children (e : Expr) : e.refit e.children = pure e := by
  have hself : Faithful e.children e.children := by
    unfold Faithful
    rw [List.forall₂_same]
    intro _ _ _
    rfl
  obtain ⟨os, is, hupdate, hhas, -⟩ := refit_eq_update hself
  rw [hupdate, update, hhas, sameAll_refl, if_pos rfl]

/-- An update never fails and hands back the node itself or a new one. At most it takes labels. -/
theorem exists_update (e : Expr) (os is : List Expr) (w : Work) :
    ∃ r n, e.update os is w = .ok r { w with nextLabel := n } ∧ w.nextLabel ≤ n ∧
      e.SameOrNew w.nextLabel r := by
  have hwith : e.withChildren w.nextLabel os is = e ∨
      (e.withChildren w.nextLabel os is).label? = some w.nextLabel := by
    unfold withChildren
    split <;> simp [label?]
  rw [update_apply]
  by_cases hhas : e.hasChildren os is = true
  · rw [if_pos hhas]
    exact ⟨e, w.nextLabel, rfl, Nat.le_refl _, .inl rfl⟩
  · rw [if_neg hhas]
    refine ⟨_, w.nextLabel + 1, rfl, Nat.le_succ _, ?_⟩
    rcases hwith with heq | hlabel
    · exact .inl heq
    · exact .inr ⟨_, hlabel, Nat.le_refl _⟩

/-- An update answers with the node itself or a new one. -/
theorem update_sameOrNew {e r : Expr} {os is : List Expr} {w w' : Work}
    (h : e.update os is w = .ok r w') :
    w.nextLabel ≤ w'.nextLabel ∧ e.SameOrNew w.nextLabel r := by
  obtain ⟨r', n, hupdate, hle, hnew⟩ := exists_update e os is w
  rw [hupdate] at h
  cases h
  exact ⟨hle, hnew⟩

/-- So does the refit of a node, which is an update of it. -/
theorem exists_refit (e : Expr) (cs : List Expr) (w : Work) :
    ∃ r n, e.refit cs w = .ok r { w with nextLabel := n } ∧ w.nextLabel ≤ n ∧
      e.SameOrNew w.nextLabel r := by
  unfold refit
  split <;> exact exists_update _ _ _ w

/-- A node with other children is the node itself or a new one. -/
theorem refit_sameOrNew {e r : Expr} {cs : List Expr} {w w' : Work}
    (h : e.refit cs w = .ok r w') :
    w.nextLabel ≤ w'.nextLabel ∧ e.SameOrNew w.nextLabel r := by
  obtain ⟨r', n, hrefit, hle, hnew⟩ := exists_refit e cs w
  rw [hrefit] at h
  cases h
  exact ⟨hle, hnew⟩

/-- A rebuilt node has the new label and the new children. -/
theorem label?_rebuild {l : Label} {e : Expr} {cs : List Expr}
    (hlen : cs.length = e.children.length) (hne : cs ≠ e.children) :
    (e.rebuild l cs).label? = some l := by
  induction e, cs, hlen using children_cases with
  | absent | constant | parameter | bare => exact absurd rfl hne
  | _ => rfl

/-- A node that is built with some children has them. -/
theorem children_rebuild {l : Label} {e : Expr} {cs : List Expr}
    (hlen : cs.length = e.children.length) : (e.rebuild l cs).children = cs := by
  induction e, cs, hlen using children_cases with
  | _ => rfl

end Expr

namespace Transformer

/-- A transformer is careful if it never takes a label back and hands back, in place of a node, the
node itself or a new one. -/
structure Careful (f : Transformer) : Prop where
  enter : ∀ k w w', f.enter k w = .ok () w' → w.nextLabel ≤ w'.nextLabel
  conclude : ∀ e cs w r w', f.conclude e cs w = .ok r w' →
    w.nextLabel ≤ w'.nextLabel ∧ e.SameOrNew w.nextLabel r

variable {f : Transformer}

/-- A visit hands back the node itself or a new one. -/
theorem visit_sameOrNew (hf : f.Careful) {e r : Expr} {w w' : Work} (h : f.Visit e w r w') :
    w.nextLabel ≤ w'.nextLabel ∧ e.SameOrNew w.nextLabel r := by
  refine visit_induction ?_ ?_ h
  · intro w
    exact ⟨Nat.le_refl _, .inl rfl⟩
  · intro e k w w₁ cs w₂ r w' _ henter hvisits _ hconclude
    have henter := hf.enter k w w₁ henter
    have hvisits := (hvisits.forall₂ (motive := fun _ _ => True) (fun _ _ _ _ h => h.2.1)
      (fun _ _ _ _ _ _ _ => trivial)).2
    obtain ⟨hconclude, hnew⟩ := hf.conclude e cs w₂ r w' hconclude
    have hle := Nat.le_trans henter hvisits
    exact ⟨Nat.le_trans hle hconclude, hnew.mono hle⟩

/-- Where the labels of the nodes visited are taken, labels tell which of them gave way to another
node. -/
theorem Visits.faithful (hf : f.Careful) {cs cs' : List Expr} {w w' : Work}
    (h : Visits f.Visit cs w cs' w') (known : ∀ c ∈ cs, c.labelsBelow w.nextLabel = true) :
    Expr.Faithful cs cs' ∧ w.nextLabel ≤ w'.nextLabel := by
  refine h.forall₂ (fun c w c' w' hvisit => (visit_sameOrNew hf hvisit).1) ?_
  intro c hc v c' w' hle hvisit
  exact (visit_sameOrNew hf hvisit).2.eq_of_same (Expr.labelsBelow_mono hle c (known c hc))

/-- A child whose labels were taken when the visits began finds them taken when its turn comes. -/
theorem Visits.known (hf : f.Careful) {motive : Expr → Work → Expr → Work → Prop}
    {cs cs' : List Expr} {w w' : Work}
    (h : Visits (fun c w c' w' => f.Visit c w c' w' ∧
      (c.labelsBelow w.nextLabel = true → motive c w c' w')) cs w cs' w')
    (known : ∀ c ∈ cs, c.labelsBelow w.nextLabel = true) : Visits motive cs w cs' w' := by
  induction h with
  | nil w => exact .nil w
  | cons head _ ih =>
    rw [List.forall_mem_cons] at known
    have hle := (visit_sameOrNew hf head.1).1
    exact .cons (head.2 known.1) (ih fun c hc => Expr.labelsBelow_mono hle c (known.2 c hc))

/-- Induction over successful visits in a tree whose labels are taken, with the work that each of
them starts from and leaves: labels tell which children gave way to another node. -/
@[elab_as_elim]
theorem known_walk_induction (hf : f.Careful) {motive : Expr → Work → Expr → Work → Prop}
    (absent : ∀ w, motive .absent w .absent w)
    (node : ∀ e k w w₁ cs w₂ r w', e.kind? = some k → f.enter k w = .ok () w₁ →
      e.labelsBelow w₂.nextLabel = true → Expr.Faithful e.children cs →
      Visits motive e.children w₁ cs w₂ → (∀ c ∈ e.required, c.isAbsent = false) →
      f.conclude e cs w₂ = .ok r w' → motive e w r w')
    {e r : Expr} {w w' : Work} (known : e.labelsBelow w.nextLabel = true)
    (h : f.Visit e w r w') : motive e w r w' := by
  revert known
  refine visit_induction ?_ ?_ h
  · intro w _
    exact absent w
  · intro e k w w₁ cs w₂ r w' hk henter hvisits hrequired hconclude known
    have known₁ := Expr.labelsBelow_mono (hf.enter k w w₁ henter) e known
    have hchildren : ∀ c ∈ e.children, c.labelsBelow w₁.nextLabel = true :=
      fun c hc => Expr.labelsBelow_of_mem_children known₁ hc
    obtain ⟨hfaithful, hle⟩ :=
      (hvisits.imp fun c _ w c' w' hvisit => hvisit.1).faithful hf hchildren
    exact node e k w w₁ cs w₂ r w' hk henter (Expr.labelsBelow_mono hle e known₁) hfaithful
      (hvisits.known hf hchildren) hrequired hconclude

/-- The same induction for what does not depend on the work. -/
@[elab_as_elim]
theorem known_visit_induction (hf : f.Careful) {motive : Expr → Expr → Prop}
    (absent : motive .absent .absent)
    (node : ∀ e k cs w r w', e.kind? = some k → e.labelsBelow w.nextLabel = true →
      Expr.Faithful e.children cs → List.Forall₂ motive e.children cs →
      (∀ c ∈ e.required, c.isAbsent = false) → f.conclude e cs w = .ok r w' → motive e r)
    {e r : Expr} {w w' : Work} (known : e.labelsBelow w.nextLabel = true)
    (h : f.Visit e w r w') : motive e r := by
  refine known_walk_induction (motive := fun e _ r _ => motive e r) hf (fun _ => absent) ?_ known h
  intro e k w w₁ cs w₂ r w' hk _ known hfaithful hvisits hrequired hconclude
  exact node e k cs w₂ r w' hk known hfaithful hvisits.related hrequired hconclude

/-- What visits hand back one after the other holds no label that is still free in the end, if none
of it does when it is handed back. -/
theorem Visits.labelsBelow {cs cs' : List Expr} {w w' : Work}
    (h : Visits (fun _ w c' w' => w.nextLabel ≤ w'.nextLabel ∧ c'.labelsBelow w'.nextLabel = true)
      cs w cs' w') :
    w.nextLabel ≤ w'.nextLabel ∧ ∀ c' ∈ cs', c'.labelsBelow w'.nextLabel = true := by
  induction h with
  | nil w => exact ⟨Nat.le_refl _, by simp⟩
  | cons head _ ih =>
    refine ⟨Nat.le_trans head.1 ih.1, ?_⟩
    rw [List.forall_mem_cons]
    exact ⟨Expr.labelsBelow_mono ih.1 _ head.2, ih.2⟩

/-- Where no conclusion holds a label that is still free, unless the node or one of its children
does, no visit hands one back. -/
theorem labelsBelow_of_visit (hf : f.Careful)
    (concludes : ∀ e cs w r w', Expr.Faithful e.children cs → e.labelsBelow w.nextLabel = true →
      (∀ c ∈ cs, c.labelsBelow w.nextLabel = true) → f.conclude e cs w = .ok r w' →
      r.labelsBelow w'.nextLabel = true)
    {e r : Expr} {w w' : Work} (known : e.labelsBelow w.nextLabel = true) (h : f.Visit e w r w') :
    w.nextLabel ≤ w'.nextLabel ∧ r.labelsBelow w'.nextLabel = true := by
  refine known_walk_induction hf ?_ ?_ known h
  · intro w
    exact ⟨Nat.le_refl _, rfl⟩
  · intro e k w w₁ cs w₂ r w' _ henter known hfaithful hvisits _ hconclude
    obtain ⟨hle, hcs⟩ := hvisits.labelsBelow
    have hgrows := (hf.conclude e cs w₂ r w' hconclude).1
    exact ⟨Nat.le_trans (Nat.le_trans (hf.enter k w w₁ henter) hle) hgrows,
      concludes e cs w₂ r w' hfaithful known hcs hconclude⟩

end Transformer

end CanonicalAccess
