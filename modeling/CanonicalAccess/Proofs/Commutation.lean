import CanonicalAccess.Proofs.LeafRewriting
import CanonicalAccess.Proofs.Lockstep
import CanonicalAccess.Transformation.Stock

/-!
# Normalization and functions of leaves commute

A transformer that computes a function of constants and of parameters changes nothing else: it
succeeds on every complete tree, and what it hands back is parallel to the tree, with the leaves'
images for leaves. So the normalizer goes in lockstep over a tree and over its image, and it does
not matter which of the two transformations comes first (`normalize_accept_comm`).
-/

set_option autoImplicit false

namespace CanonicalAccess

open CanonicalAccess.Expr (Parallel Faithful Correspondence SameSort)

/-- A function of leaves: what the payload and the type of a constant become, and the name and the
type of a parameter. It may depend on which node the leaf is. -/
structure LeafFunction where
  constant : Label → Value → Ty → Value × Ty
  parameter : Label → String → Ty → String × Ty

namespace LeafFunction

variable (g : LeafFunction)

/-- The image of a leaf; other nodes are their own. -/
def image : Expr → Expr
  | .constant l v t => .constant l (g.constant l v t).1 (g.constant l v t).2
  | .parameter l n t => .parameter l (g.parameter l n t).1 (g.parameter l n t).2
  | e => e

/-- A node has the head of the image of another node. -/
def Heads (e r : Expr) : Prop := r.head = (g.image e).head

/-- The image of a leaf is of its sort. -/
theorem sameSort_image (e : Expr) : SameSort e (g.image e) := by
  cases e <;> exact ⟨rfl, rfl, rfl⟩

/-- A node with children is its own image. -/
theorem image_of_children_ne_nil {e : Expr} (h : e.children ≠ []) : g.image e = e := by
  cases e with
  | constant | parameter => exact absurd rfl h
  | _ => rfl

/-- A node with other children has an image with the same head. -/
theorem head_image_rebuild {l : Label} {e : Expr} {cs : List Expr}
    (hlen : cs.length = e.children.length) :
    (g.image (e.rebuild l cs)).head = (g.image e).head := by
  induction e, cs, hlen using Expr.children_cases with
  | _ => rfl

/-- To agree in the heads of images is a correspondence. -/
theorem correspondence : Correspondence g.Heads where
  sameSort := by
    intro e r hheads
    have himage := g.sameSort_image e
    have hr := SameSort.of_head_eq (Eq.symm hheads)
    exact ⟨hr.isAbsent.trans himage.isAbsent, hr.kind?.trans himage.kind?,
      hr.callee?.trans himage.callee?⟩
  rebuild := by
    intro e r cs cs' l l' hlen hlen' hheads
    rw [Heads, Expr.head_rebuild hlen', head_image_rebuild g hlen]
    exact hheads
  canonical := by
    intro e r hcanonical hhead
    have himage : g.image e = e := by cases e <;> first | rfl | cases hcanonical
    rw [Heads, himage, hhead]

end LeafFunction

namespace Expr

/-- Without labels a node is determined by its head and its children. -/
theorem unlabelled_eq_of_head_eq {e e' : Expr} (hhead : e.head = e'.head)
    (hchildren : e.children.map unlabelled = e'.children.map unlabelled) :
    e.unlabelled = e'.unlabelled := by
  cases e <;> cases e' <;>
    simp_all [head, children, operands, items, unlabelled, unlabelledAll_eq_map]

/-- Without labels there is one tree only that has the images of a tree's leaves for leaves. -/
theorem Parallel.unlabelled_eq {g : LeafFunction} {e r r' : Expr} (h : Parallel g.Heads e r)
    (h' : Parallel g.Heads e r') : r.unlabelled = r'.unlabelled := by
  induction e using children_induction generalizing r r' with
  | step e ih =>
    have hhead : r.head = r'.head := Eq.trans h.head (Eq.symm h'.head)
    have hagree : List.Forall₂ (fun c c' => ∀ d d', Parallel g.Heads c d →
        Parallel g.Heads c' d' → d.unlabelled = d'.unlabelled) e.children e.children :=
      List.forall₂_same.mpr fun c hc _ _ => ih c hc
    exact unlabelled_eq_of_head_eq hhead (map_unlabelled_eq hagree h.children h'.children)

end Expr

/-! ### What is handed back -/

/-- What is handed back in place of a node, as far as a function of leaves is concerned: a related
node, which is the node itself or another one that is there by then. No question is asked. -/
structure Yields (relation : Expr → Expr → Prop) (e : Expr) (w : Work) (r : Expr) (w' : Work) :
    Prop where
  related : relation e r
  same : r.same e = true → r = e
  known : r.labelsBelow w'.nextLabel = true
  grows : w.nextLabel ≤ w'.nextLabel
  asked : w'.asked = w.asked

/-- The same of the children of a node, one after the other. -/
structure YieldsAll (relation : Expr → Expr → Prop) (es : List Expr) (w : Work) (rs : List Expr)
    (w' : Work) : Prop where
  related : List.Forall₂ relation es rs
  faithful : Faithful es rs
  known : ∀ r ∈ rs, r.labelsBelow w'.nextLabel = true
  grows : w.nextLabel ≤ w'.nextLabel
  asked : w'.asked = w.asked

/-- If each of some runs yields a related tree from any work, then they all do in order. -/
theorem YieldsAll.inOrder {relation : Expr → Expr → Prop} {run : Expr → Transform Expr}
    {es : List Expr} {w : Work} (known : ∀ e ∈ es, e.labelsBelow w.nextLabel = true)
    (h : ∀ e ∈ es, ∀ v, e.labelsBelow v.nextLabel = true →
      ∃ r v', run e v = .ok r v' ∧ Yields relation e v r v') :
    ∃ rs w', Transform.inOrder (es.map run) w = .ok rs w' ∧ YieldsAll relation es w rs w' := by
  induction es generalizing w with
  | nil => exact ⟨[], w, rfl, .nil, .nil, by simp, Nat.le_refl _, rfl⟩
  | cons e es ih =>
    rw [List.forall_mem_cons] at known h
    obtain ⟨r, w₁, hrun, hr⟩ := h.1 w known.1
    have known₁ : ∀ c ∈ es, c.labelsBelow w₁.nextLabel = true :=
      fun c hc => Expr.labelsBelow_mono hr.grows c (known.2 c hc)
    obtain ⟨rs, w₂, hruns, hrs⟩ := ih known₁ h.2
    refine ⟨r :: rs, w₂, ?_, ?_⟩
    · rw [List.map_cons, Transform.inOrder, Transform.bind_eq_ok_iff]
      refine ⟨r, w₁, hrun, ?_⟩
      rw [Transform.bind_eq_ok_iff]
      exact ⟨rs, w₂, hruns, rfl⟩
    · refine ⟨.cons hr.related hrs.related, .cons hr.same hrs.faithful, ?_,
        Nat.le_trans hr.grows hrs.grows, hrs.asked.trans hr.asked⟩
      rw [List.forall_mem_cons]
      exact ⟨Expr.labelsBelow_mono hrs.grows r hr.known, hrs.known⟩

namespace Transformer

/-- A transformer computes a function of leaves: it hands back the image of a leaf, be it the leaf
itself, a node made for it or one that is there already, and does nothing of its own elsewhere. -/
structure Computes (f : Transformer) (g : LeafFunction) : Prop where
  enter : ∀ k, f.enter k = pure ()
  onConstant : ∀ l v t w, l < w.nextLabel → ∃ r w',
    f.onConstant (.constant l v t) w = .ok r w' ∧ Yields g.Heads (.constant l v t) w r w'
  onParameter : ∀ l n t w, l < w.nextLabel → ∃ r w',
    f.onParameter (.parameter l n t) w = .ok r w' ∧ Yields g.Heads (.parameter l n t) w r w'
  onCall : ∀ call receiver arguments,
    f.onCall call receiver arguments = call.update [receiver] arguments
  onUnary : ∀ operation operand, f.onUnary operation operand = operation.update [operand] []

namespace Computes

variable {f : Transformer} {g : LeafFunction}

/-- What computes leaf functions decides about leaves alone. -/
theorem decidesLeaves (computes : f.Computes g) : f.DecidesLeaves :=
  ⟨computes.enter, computes.onCall, computes.onUnary⟩

/-- What is concluded at a leaf is its image. -/
theorem exists_conclude_leaf (computes : f.Computes g) {e : Expr} (cs : List Expr) {w : Work}
    (hk : e.kind?.isSome = true) (hnil : e.children = [])
    (known : e.labelsBelow w.nextLabel = true) :
    ∃ r w', f.conclude e cs w = .ok r w' ∧ Yields g.Heads e w r w' := by
  cases e with
  | absent | bare => cases hk
  | constant l v t => exact computes.onConstant l v t w (by simpa [Expr.labelsBelow] using known)
  | parameter l n t => exact computes.onParameter l n t w (by simpa [Expr.labelsBelow] using known)
  | _ => cases hnil

/-- What is concluded at a node is the node with its head's image and with what its children
became. -/
theorem exists_conclude (computes : f.Computes g) {e : Expr} {cs : List Expr} {w w₁ : Work}
    (hk : e.kind?.isSome = true) (known : e.labelsBelow w.nextLabel = true)
    (hcs : YieldsAll (Parallel g.Heads) e.children w cs w₁) :
    ∃ r w', f.conclude e cs w₁ = .ok r w' ∧ Yields (Parallel g.Heads) e w r w' := by
  have known₁ := Expr.labelsBelow_mono hcs.grows e known
  have hlen := hcs.related.length_eq.symm
  -- A leaf is handed to the function; a node above the leaves is refitted.
  by_cases hnil : e.children = []
  · obtain ⟨r, w', hconclude, hr⟩ := computes.exists_conclude_leaf cs hk hnil known₁
    have hrnil := (g.correspondence.sameSort hr.related).children_eq_nil hnil
    refine ⟨r, w', hconclude, .intro hr.related ?_, hr.same, hr.known,
      Nat.le_trans hcs.grows hr.grows, hr.asked.trans hcs.asked⟩
    rw [hnil, hrnil]
    exact .nil
  · obtain ⟨r, k, hrefit, hle, hnew⟩ := Expr.exists_refit e cs w₁
    have hknown := Expr.labelsBelow_of_refit hcs.faithful known₁ hcs.known hrefit
    have hconclude := computes.decidesLeaves.conclude_of_not_isLeaf hlen (Expr.isLeaf_eq_false hnil)
    obtain ⟨l, rfl⟩ := Expr.exists_rebuild_of_refit hk hcs.faithful hrefit
    refine ⟨_, _, hconclude ▸ hrefit, .intro ?_ ?_, hnew.eq_of_same known₁, hknown,
      Nat.le_trans hcs.grows hle, hcs.asked⟩
    · rw [LeafFunction.Heads, Expr.head_rebuild hlen, g.image_of_children_ne_nil hnil]
    · rw [Expr.children_rebuild hlen]
      exact hcs.related

/-- Every complete tree, or absent receiver, is carried to a tree parallel to it. -/
theorem exists_apply (computes : f.Computes g) {e : Expr} {w : Work}
    (hcomplete : e.isAbsent = false → e.complete = true)
    (known : e.labelsBelow w.nextLabel = true) :
    ∃ r w', f.apply e w = .ok r w' ∧ Yields (Parallel g.Heads) e w r w' := by
  induction e using Expr.children_induction generalizing w with
  | step e ih =>
    by_cases habsent : e.isAbsent = true
    · obtain rfl := Expr.eq_absent_of_isAbsent habsent
      exact ⟨.absent, w, rfl, .intro rfl .nil, fun _ => rfl, rfl, Nat.le_refl _, rfl⟩
    · have hpresent : e.isAbsent = false := by simpa using habsent
      obtain ⟨hk, -, hrequired, hchildren⟩ :=
        (Expr.complete_iff_children e).mp (hcomplete hpresent)
      obtain ⟨k, hkind⟩ := Option.isSome_iff_exists.mp hk
      obtain ⟨cs, w₁, hrun, hcs⟩ := YieldsAll.inOrder
        (fun c hc => Expr.labelsBelow_of_mem_children known hc)
        fun c hc v knownHere => ih c hc (hchildren c hc) knownHere
      obtain ⟨r, w', hconclude, hr⟩ := computes.exists_conclude hk known hcs
      refine ⟨r, w', ?_, hr⟩
      rw [apply_of_present f hpresent, accept_eq_conclude f hkind, computes.enter, pure_bind,
        visits_eq_map_apply f hrequired, Transform.bind_eq_ok_iff]
      exact ⟨cs, w₁, hrun, hconclude⟩

/-- So a complete tree is transformed. -/
theorem exists_accept (computes : f.Computes g) {t : Expr} {w : Work} (complete : t.complete = true)
    (known : t.labelsBelow w.nextLabel = true) :
    ∃ r w', f.accept t w = .ok r w' ∧ Yields (Parallel g.Heads) t w r w' := by
  rw [← apply_of_present f (Expr.isAbsent_of_complete complete)]
  exact computes.exists_apply (fun _ => complete) known

end Computes

/-- A leaf that is left alone, and a leaf made in its place, are handed back as they should be. -/
theorem yields_pure {relation : Expr → Expr → Prop} {e : Expr} {w : Work}
    (known : e.labelsBelow w.nextLabel = true) (h : relation e e) :
    ∃ r w', (pure e : Transform Expr) w = .ok r w' ∧ Yields relation e w r w' :=
  ⟨e, w, rfl, h, fun _ => rfl, known, Nat.le_refl _, rfl⟩

/-- A new node that is related to an expression is yielded for it. -/
theorem yields_create {relation : Expr → Expr → Prop} {e : Expr} {node : Label → Expr} {w : Work}
    (known : e.labelsBelow w.nextLabel = true) (label : (node w.nextLabel).label? = some w.nextLabel)
    (fresh : (node w.nextLabel).labelsBelow (w.nextLabel + 1) = true)
    (h : relation e (node w.nextLabel)) :
    ∃ r w', Transform.create node w = .ok r w' ∧ Yields relation e w r w' := by
  have hnew := Expr.same_eq_false_of_new known label (Nat.le_refl _)
  exact ⟨_, _, Transform.create_apply node w, h, fun hsame => absurd (hsame ▸ hnew) nofun, fresh,
    Nat.le_succ _, rfl⟩

/-- Doubles the whole numbers and primes the names of the parameters that are used. -/
def doubleAndRename : Transformer where
  onConstant := double.onConstant
  onParameter := rename.onParameter

end Transformer

def LeafFunction.doubleAndRename : LeafFunction where
  constant _ v t := ((Transformer.twice? v).getD v, t)
  parameter _ n t := (n ++ "'", t)

/-- The sample transformer computes the sample functions on leaves. -/
theorem Transformer.computes_doubleAndRename :
    doubleAndRename.Computes LeafFunction.doubleAndRename where
  enter := fun _ => rfl
  onConstant := by
    intro l v t w hl
    have known : (Expr.constant l v t).labelsBelow w.nextLabel = true := by
      simpa [Expr.labelsBelow] using hl
    simp only [doubleAndRename, double]
    cases hv : twice? v with
    | none =>
      refine yields_pure known ?_
      simp [LeafFunction.Heads, LeafFunction.image, LeafFunction.doubleAndRename, hv, Expr.head]
    | some v' =>
      refine yields_create known rfl (by simp [Expr.labelsBelow]) ?_
      simp [LeafFunction.Heads, LeafFunction.image, LeafFunction.doubleAndRename, hv, Expr.head]
  onParameter := by
    intro l n t w hl
    have known : (Expr.parameter l n t).labelsBelow w.nextLabel = true := by
      simpa [Expr.labelsBelow] using hl
    exact yields_create known rfl (by simp [Expr.labelsBelow]) rfl
  onCall := fun _ _ _ => rfl
  onUnary := fun _ _ => rfl

/-- A function of leaves and normalization commute. Where a transformer computes a function of
leaves, and a complete tree has no label that a new node may have, it transforms the tree, the tree
is normalized if and only if what it made of it is, and then it makes of the normalized tree what
the tree that it made is normalized to, up to the identity of nodes. -/
theorem normalize_accept_comm {metadata : Metadata} {f : Transformer} {g : LeafFunction}
    {t : Expr} {w : Work} (computes : f.Computes g) (complete : t.complete = true)
    (known : t.labelsBelow w.nextLabel = true) :
    ∃ t' w₁, f.accept t w = .ok t' w₁ ∧
      ((∃ r u, normalize metadata t w = .ok r u) ↔
        ∃ r' u', normalize metadata t' w₁ = .ok r' u') ∧
      ∀ r u r' u', normalize metadata t w = .ok r u → normalize metadata t' w₁ = .ok r' u' →
        ∃ r'' u'', f.accept r u = .ok r'' u'' ∧ r''.unlabelled = r'.unlabelled := by
  obtain ⟨t', w₁, haccept, ht⟩ := computes.exists_accept complete known
  have alike : metadata.GoesOnAlike w.asked w₁.asked := by
    rw [ht.asked]
    exact fun _ _ => rfl
  have hends := Normalization.endsAlike_normalize g.correspondence ht.related complete known
    ht.known alike
  refine ⟨t', w₁, haccept, hends.ok_iff, ?_⟩
  intro r u r' u' hok hok'
  rw [hok, hok'] at hends
  obtain ⟨w₂, hwalk, rfl⟩ := normalize_eq_ok_iff.mp hok
  obtain ⟨hpresent, hvisit⟩ := Transformer.visit_of_accept hwalk
  -- The normalized tree is complete and its labels are taken, so it is transformed in turn.
  have hr := Normalized.of_visit (w := { w with settled := 0 }) known hvisit
  have knownResult := Normalization.labelsBelow_of_visit (w := { w with settled := 0 }) known hvisit
  obtain ⟨r'', u'', hr'', hyields⟩ :=
    computes.exists_accept (w := { w₂ with log := w₂.log ++ [.normalized w₂.settled] })
      (hr.complete (hr.isAbsent.trans hpresent)) knownResult
  exact ⟨r'', u'', hr'', hyields.related.unlabelled_eq hends.answer⟩

/-- The function that copies the first cell may be renamed before or after it is normalized. -/
theorem normalize_accept_comm_copyFirst :
    Grid.copyFirst.complete = true ∧ Grid.copyFirst.labelsBelow 6 = true ∧
      ∃ t' w₁ u r' u' r'' u'',
        Transformer.doubleAndRename.accept Grid.copyFirst (Work.start 6) = .ok t' w₁ ∧
        normalize Grid.provider Grid.copyFirst (Work.start 6) = .ok Grid.copiedFirst u ∧
        normalize Grid.provider t' w₁ = .ok r' u' ∧
        Transformer.doubleAndRename.accept Grid.copiedFirst u = .ok r'' u'' ∧
        r''.unlabelled = r'.unlabelled := by
  have complete : Grid.copyFirst.complete = true := by decide
  have known : Grid.copyFirst.labelsBelow (Work.start 6).nextLabel = true := by decide
  obtain ⟨t', w₁, haccept, hsucceeds, hcomm⟩ :=
    @normalize_accept_comm Grid.provider _ _ _ _ Transformer.computes_doubleAndRename complete known
  obtain ⟨r', u', hok'⟩ := hsucceeds.mp ⟨_, _, Grid.normalize_copyFirst⟩
  obtain ⟨r'', u'', hr'', hsame⟩ := hcomm _ _ _ _ Grid.normalize_copyFirst hok'
  exact ⟨complete, known, t', w₁, _, r', u', r'', u'', haccept, Grid.normalize_copyFirst, hok', hr'',
    hsame⟩

end CanonicalAccess
