import CanonicalAccess.Proofs.Children
import CanonicalAccess.Transformation.Position
import Mathlib.Data.List.Forall2

/-!
# The walk of a transformer

At every node a walk does three things: it enters the node, visits the children in order, and
concludes with what takes the place of the node. `accept_eq_conclude` says so for all kinds at
once, and `visit_induction` turns it into an induction over successful walks.
-/

set_option autoImplicit false

namespace CanonicalAccess

namespace Transform

variable {α : Type}

/-- Answers at hand are answers in order. -/
theorem inOrder_pure (as : List α) :
    inOrder (as.map fun a => (pure a : Transform α)) = pure as := by
  induction as with
  | nil => rfl
  | cons a as ih => simp [inOrder, ih]

/-- There are as many answers as computations. -/
theorem length_of_inOrder {xs : List (Transform α)} {as : List α}
    {w w' : Work} (h : inOrder xs w = .ok as w') : as.length = xs.length := by
  induction xs generalizing as w with
  | nil =>
    cases h
    rfl
  | cons x xs ih =>
    obtain ⟨a, w₁, -, h⟩ := (bind_eq_ok_iff _ _ _ _ _).mp h
    obtain ⟨as', w₂, hrest, h⟩ := (bind_eq_ok_iff _ _ _ _ _).mp h
    cases h
    rw [List.length_cons, List.length_cons, ih hrest]

/-- Computations of which none fails do not fail in order either. -/
theorem exists_inOrder {β : Type} {es : List β} {run : β → Transform α}
    (h : ∀ e ∈ es, ∀ w, ∃ a w', run e w = .ok a w') (w : Work) :
    ∃ as w', inOrder (es.map run) w = .ok as w' := by
  induction es generalizing w with
  | nil => exact ⟨[], w, rfl⟩
  | cons e es ih =>
    rw [List.forall_mem_cons] at h
    obtain ⟨a, w₁, hrun⟩ := h.1 w
    obtain ⟨as, w₂, hruns⟩ := ih h.2 w₁
    refine ⟨a :: as, w₂, ?_⟩
    rw [List.map_cons, inOrder, bind_eq_ok_iff]
    exact ⟨a, w₁, hrun, (bind_eq_ok_iff _ _ _ _ _).mpr ⟨as, w₂, hruns, rfl⟩⟩

end Transform

/-- A node given the children that its own became: the node itself if they are its own. -/
def Expr.refit (e : Expr) (cs : List Expr) : Transform Expr :=
  match e, cs with
  | .index _ _ _ as, r' :: as' => e.update [r'] (Transformer.reuse as as')
  | .call _ _ _ as, r' :: as' => e.update [r'] (Transformer.reuse as as')
  | .lambda _ ps _, _ => e.update cs ps
  | _, _ => e.update cs []

namespace Transformer

/-- What takes the place of a node, given what its children became. -/
def conclude (f : Transformer) (e : Expr) (cs : List Expr) : Transform Expr :=
  match e, cs with
  | .constant .., _ => f.onConstant e
  | .parameter .., _ => f.onParameter e
  | .call _ _ _ as, r' :: as' => f.onCall e r' (reuse as as')
  | .unary .., [x'] => f.onUnary e x'
  | _, _ => e.refit cs

/-- Expressions of a list are transformed in order. -/
theorem acceptAll_eq_inOrder (f : Transformer) (es : List Expr) :
    f.acceptAll es = Transform.inOrder (es.map f.accept) := by
  induction es with
  | nil => rfl
  | cons e es ih => rw [acceptAll, ih, List.map_cons, Transform.inOrder]

/-- What is there is transformed as what has to be there. -/
theorem apply_of_present (f : Transformer) {e : Expr} (h : e.isAbsent = false) :
    f.apply e = f.accept e := by
  simp [apply, h]

/-- A tree is handed back if it is whenever it is there. -/
theorem apply_eq_pure {f : Transformer} {e : Expr}
    (h : e.isAbsent = false → f.accept e = pure e) : f.apply e = pure e := by
  cases habsent : e.isAbsent with
  | true =>
    rw [Expr.eq_absent_of_isAbsent habsent]
    rfl
  | false => rw [apply_of_present f habsent, h habsent]

/-- There are as many visits as children. -/
theorem length_visits (f : Transformer) (e : Expr) :
    (f.visits e).length = e.children.length := by
  unfold visits
  cases e.children <;> simp

/-- Where nothing that has to be there is missing, every child may be visited as if it could be. -/
theorem visits_eq_map_apply (f : Transformer) {e : Expr}
    (hrequired : ∀ c ∈ e.required, c.isAbsent = false) :
    f.visits e = e.children.map f.apply := by
  have haccept : ∀ cs : List Expr, (∀ c ∈ cs, c.isAbsent = false) →
      cs.map f.accept = cs.map f.apply := by
    intro cs hcs
    exact List.map_congr_left fun c hc => (apply_of_present f (hcs c hc)).symm
  unfold visits
  rw [Expr.required_eq] at hrequired
  cases hchildren : e.children with
  | nil => rfl
  | cons c cs =>
    rw [hchildren] at hrequired
    dsimp only
    split
    · rename_i hreceiver
      rw [if_pos hreceiver, List.tail_cons] at hrequired
      rw [haccept cs hrequired, List.map_cons]
    · rename_i hreceiver
      rw [if_neg hreceiver] at hrequired
      rw [← List.map_cons, haccept (c :: cs) hrequired]

/-- To accept a node is to enter it, to visit its children in order, and to conclude. -/
theorem accept_eq_conclude (f : Transformer) {e : Expr} {k : Kind} (hk : e.kind? = some k) :
    f.accept e = (do
      f.enter k
      let cs ← Transform.inOrder (f.visits e)
      f.conclude e cs) := by
  cases e with
  | absent | bare l => cases hk
  -- Only these have a receiver, which is visited if it is there.
  | member l r p | index l r p as | call l r m as =>
    cases hk
    by_cases hr : r.isAbsent = true <;>
      simp [accept, acceptAll_eq_inOrder, visits, Expr.children, Expr.operands, Expr.items,
        Expr.hasReceiver, Transform.inOrder, apply, hr, conclude, Expr.refit]
  | _ =>
    cases hk
    simp [accept, visits, Expr.children, Expr.operands, Expr.items, Expr.hasReceiver,
      Transform.inOrder, conclude, Expr.refit]

/-- Only a node of some kind is transformed. -/
theorem kind?_isSome_of_accept {f : Transformer} {e r : Expr} {w w' : Work}
    (h : f.accept e w = .ok r w') : e.kind?.isSome = true := by
  cases e with
  | absent | bare l =>
    simp only [accept, Transform.throw_apply, reduceCtorEq] at h
  | _ => rfl

/-- One visit after the other, each with the work that the one before has left. -/
inductive Visits (visit : Expr → Work → Expr → Work → Prop) :
    List Expr → Work → List Expr → Work → Prop where
  | nil (w : Work) : Visits visit [] w [] w
  | cons {c c' : Expr} {cs cs' : List Expr} {w w₁ w₂ : Work} (head : visit c w c' w₁)
      (tail : Visits visit cs w₁ cs' w₂) : Visits visit (c :: cs) w (c' :: cs') w₂

namespace Visits

variable {visit visit' : Expr → Work → Expr → Work → Prop} {cs cs' : List Expr} {w w' : Work}

/-- What is known of each visit may be weakened for each child. -/
theorem imp (h : Visits visit cs w cs' w')
    (himp : ∀ c ∈ cs, ∀ w c' w', visit c w c' w' → visit' c w c' w') :
    Visits visit' cs w cs' w' := by
  induction h with
  | nil w => exact .nil w
  | cons head _ ih =>
    refine .cons (himp _ (by simp) _ _ _ head) (ih ?_)
    intro c hc
    exact himp c (by simp [hc])

/-- Where visits never take labels back, each finds the labels taken that the first found taken. -/
theorem forall₂ {motive : Expr → Expr → Prop} (h : Visits visit cs w cs' w')
    (grows : ∀ c w c' w', visit c w c' w' → w.nextLabel ≤ w'.nextLabel)
    (hmotive : ∀ c ∈ cs, ∀ w₁ c' w', w.nextLabel ≤ w₁.nextLabel → visit c w₁ c' w' →
      motive c c') :
    List.Forall₂ motive cs cs' ∧ w.nextLabel ≤ w'.nextLabel := by
  induction h with
  | nil w => exact ⟨.nil, Nat.le_refl _⟩
  | cons head _ ih =>
    have hhead := grows _ _ _ _ head
    obtain ⟨htail, hle⟩ := ih fun c hc w₁ c' w' hw =>
      hmotive c (by simp [hc]) w₁ c' w' (Nat.le_trans hhead hw)
    exact ⟨.cons (hmotive _ (by simp) _ _ _ (Nat.le_refl _) head) htail, Nat.le_trans hhead hle⟩

/-- Children and what they became are related as the visits say. -/
theorem related {motive : Expr → Expr → Prop}
    (h : Visits (fun c _ c' _ => motive c c') cs w cs' w') : List.Forall₂ motive cs cs' := by
  induction h with
  | nil w => exact .nil
  | cons head _ ih => exact .cons head ih

/-- There are as many results as children. -/
theorem length_eq (h : Visits visit cs w cs' w') : cs'.length = cs.length := by
  induction h with
  | nil w => rfl
  | cons _ _ ih => rw [List.length_cons, List.length_cons, ih]

end Visits

def Visit (f : Transformer) (e : Expr) (w : Work) (r : Expr) (w' : Work) : Prop :=
  f.apply e w = .ok r w'

/-- What is transformed is there and was visited. -/
theorem visit_of_accept {f : Transformer} {e r : Expr} {w w' : Work}
    (h : f.accept e w = .ok r w') : e.isAbsent = false ∧ f.Visit e w r w' := by
  obtain ⟨k, hk⟩ := Option.isSome_iff_exists.mp (kind?_isSome_of_accept h)
  have hpresent := Expr.isAbsent_of_kind? hk
  refine ⟨hpresent, ?_⟩
  rw [Visit, apply_of_present f hpresent]
  exact h

/-- Expressions that are accepted in order are all there and are visited in order. -/
theorem visits_of_inOrder_accept {f : Transformer} {cs cs' : List Expr} {w w' : Work}
    (h : Transform.inOrder (cs.map f.accept) w = .ok cs' w') :
    Visits f.Visit cs w cs' w' ∧ ∀ c ∈ cs, c.isAbsent = false := by
  induction cs generalizing cs' w with
  | nil =>
    cases h
    exact ⟨.nil _, by simp⟩
  | cons c cs ih =>
    rw [List.map_cons, Transform.inOrder, Transform.bind_eq_ok_iff] at h
    obtain ⟨c', w₁, hc, h⟩ := h
    obtain ⟨cs', w₂, hcs, h⟩ := (Transform.bind_eq_ok_iff _ _ _ _ _).mp h
    cases h
    obtain ⟨hpresent, hvisit⟩ := visit_of_accept hc
    obtain ⟨hvisits, hall⟩ := ih hcs
    exact ⟨.cons hvisit hvisits, by simpa using ⟨hpresent, hall⟩⟩

/-- Where the visits of the children of a node succeed, nothing that has to be there is missing. -/
theorem visits_of_inOrder {f : Transformer} {e : Expr} {cs : List Expr} {w w' : Work}
    (h : Transform.inOrder (f.visits e) w = .ok cs w') :
    Visits f.Visit e.children w cs w' ∧ ∀ c ∈ e.required, c.isAbsent = false := by
  by_cases hr : e.hasReceiver = true
  · obtain ⟨r, hchildren⟩ : ∃ r, e.children = r :: e.items := by
      cases e <;> simp [Expr.hasReceiver, Expr.children, Expr.operands, Expr.items] at hr ⊢
    simp only [visits, hchildren, hr, if_true, Transform.inOrder] at h
    obtain ⟨r', w₁, hr', h⟩ := (Transform.bind_eq_ok_iff _ _ _ _ _).mp h
    obtain ⟨as', w₂, has, h⟩ := (Transform.bind_eq_ok_iff _ _ _ _ _).mp h
    cases h
    obtain ⟨hvisits, hall⟩ := visits_of_inOrder_accept has
    rw [hchildren, Expr.required, if_pos hr]
    exact ⟨.cons hr' hvisits, hall⟩
  · have hvisits : f.visits e = e.children.map f.accept := by
      unfold visits
      cases e.children <;> simp [hr]
    rw [hvisits] at h
    rw [Expr.required, if_neg hr]
    exact visits_of_inOrder_accept h

/-- What a successful visit of a node consists of. -/
theorem visit_node {f : Transformer} {e r : Expr} {w w' : Work} (h : f.Visit e w r w')
    (hpresent : e.isAbsent = false) :
    ∃ k w₁ cs w₂, e.kind? = some k ∧ f.enter k w = .ok () w₁ ∧
      Visits f.Visit e.children w₁ cs w₂ ∧ (∀ c ∈ e.required, c.isAbsent = false) ∧
      f.conclude e cs w₂ = .ok r w' := by
  rw [Visit, apply_of_present f hpresent] at h
  obtain ⟨k, hk⟩ := Option.isSome_iff_exists.mp (kind?_isSome_of_accept h)
  rw [accept_eq_conclude f hk] at h
  obtain ⟨⟨⟩, w₁, henter, h⟩ := (Transform.bind_eq_ok_iff _ _ _ _ _).mp h
  obtain ⟨cs, w₂, hcs, hconclude⟩ := (Transform.bind_eq_ok_iff _ _ _ _ _).mp h
  obtain ⟨hvisits, hrequired⟩ := visits_of_inOrder hcs
  exact ⟨k, w₁, cs, w₂, hk, henter, hvisits, hrequired, hconclude⟩

/-- Induction over successful visits: what holds of an absent receiver, and of a node if it holds
of the visits of its children, holds of every successful visit. -/
@[elab_as_elim]
theorem visit_induction {f : Transformer} {motive : Expr → Work → Expr → Work → Prop}
    (absent : ∀ w, motive .absent w .absent w)
    (node : ∀ e k w w₁ cs w₂ r w', e.kind? = some k → f.enter k w = .ok () w₁ →
      Visits (fun c w c' w' => f.Visit c w c' w' ∧ motive c w c' w') e.children w₁ cs w₂ →
      (∀ c ∈ e.required, c.isAbsent = false) →
      f.conclude e cs w₂ = .ok r w' → motive e w r w')
    {e r : Expr} {w w' : Work} (h : f.Visit e w r w') : motive e w r w' := by
  induction e using Expr.children_induction generalizing w r w' with
  | step e ih =>
    by_cases ha : e.isAbsent = true
    · have he := Expr.eq_absent_of_isAbsent ha
      subst he
      cases h
      exact absent w
    · obtain ⟨k, w₁, cs, w₂, hk, henter, hvisits, hrequired, hconclude⟩ :=
        visit_node h (by simpa using ha)
      refine node e k w w₁ cs w₂ r w' hk henter (hvisits.imp ?_) hrequired hconclude
      intro c hc w c' w' hcw
      exact ⟨hcw, ih c hc hcw⟩

end Transformer

end CanonicalAccess
