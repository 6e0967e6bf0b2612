import CanonicalAccess.Normalization.Expansion
import CanonicalAccess.Proofs.Settlement
import CanonicalAccess.Proofs.Unlabelled

/-!
# Recovery of a tree from its normal form

Normalization replaces accessor calls and expansion brings them back. If a tree holds no canonical
forms of its own, the expansion of its normal form is the tree again up to labels, whatever the
metadata answered. For a canonical node is only made where the property found names the very method
called, so nothing about the call is lost but its label.
-/

set_option autoImplicit false

namespace CanonicalAccess

namespace Expr

/-- A tree in which properties and indexers are accessed through calls only. -/
def Plain (e : Expr) : Prop := ∀ n ∈ e.nodes, n.isCanonical = false

instance (e : Expr) : Decidable e.Plain :=
  inferInstanceAs (Decidable (∀ n ∈ e.nodes, n.isCanonical = false))

/-- The expansion of a tree agrees with another tree up to labels. -/
def ExpandsTo (e r : Expr) : Prop := r.expand.unlabelled = e.unlabelled

/-- Trees that expand to others do so as a list. -/
theorem unlabelledAll_expandAll {es es' : List Expr} (h : List.Forall₂ ExpandsTo es es') :
    unlabelledAll (expandAll es') = unlabelledAll es := by
  induction h with
  | nil => rfl
  | cons head _ ih => rw [expandAll, unlabelledAll, unlabelledAll, head, ih]

/-- Children that expand to those of a node make a node that expands to it, unless it is itself a
canonical form. -/
theorem expandsTo_rebuild {e : Expr} {cs : List Expr} {l : Label} (hplain : e.isCanonical = false)
    (hcs : List.Forall₂ ExpandsTo e.children cs) : e.ExpandsTo (e.rebuild l cs) := by
  have hlen := hcs.length_eq.symm
  unfold ExpandsTo
  induction e, cs, hlen using children_cases with
  | member | index | assign => cases hplain
  | call l r m as r' as' =>
    simp only [children_call, List.forall₂_cons] at hcs
    simp only [rebuild, expand, unlabelled, unlabelledAll_expandAll hcs.2]
    rw [hcs.1]
  | unary l o x t x' =>
    simp only [children_unary, List.forall₂_cons] at hcs
    simp only [rebuild, expand, unlabelled]
    rw [hcs.1]
  | binary l o x y t x' y' =>
    simp only [children_binary, List.forall₂_cons] at hcs
    simp only [rebuild, expand, unlabelled]
    rw [hcs.1, hcs.2.1]
  | conditional l c x y c' x' y' =>
    simp only [children_conditional, List.forall₂_cons] at hcs
    simp only [rebuild, expand, unlabelled]
    rw [hcs.1, hcs.2.1, hcs.2.2.1]
  | lambda l ps b b' =>
    simp only [children_lambda, List.forall₂_cons] at hcs
    simp only [rebuild, expand, unlabelled]
    rw [hcs.1]
  | absent | constant | parameter | bare => rfl

/-- Some arguments expand to all but the last and then the last. -/
theorem expandAll_dropLast_append_getLastD {es : List Expr} (hes : es ≠ []) :
    expandAll es.dropLast ++ [(es.getLastD .absent).expand] = expandAll es := by
  rw [expandAll_eq_map, expandAll_eq_map, ← List.map_singleton, ← List.map_append,
    dropLast_append_getLastD hes]

/-- The canonical node of an access to a property expands to a call to the method that backs the
property, with the very arguments. -/
theorem expand_canonicalNode {l : Label} {a : Access} {p : Property} {m : Method} {r : Expr}
    {as : List Expr} (takes : a.Takes as.length) (backed : p.accessor a.role = .method m) :
    ∃ l', (Normalization.canonicalNode l a p r as).expand =
      .call l' r.expand (.method m) (expandAll as) := by
  cases a with
  | readProperty =>
    have has : as = [] := List.length_eq_zero_iff.mp takes
    subst has
    refine ⟨l, ?_⟩
    rw [← backed]
    rfl
  | readIndexer =>
    refine ⟨l, ?_⟩
    rw [← backed]
    rfl
  | writeProperty =>
    obtain ⟨v, rfl⟩ := List.length_eq_one_iff.mp takes
    refine ⟨l + 1, ?_⟩
    rw [← backed]
    rfl
  | writeIndexer =>
    refine ⟨l + 1, ?_⟩
    rw [← backed, ← expandAll_dropLast_append_getLastD (takes.ne_nil rfl)]
    rfl

/-- A settled call expands to the call. -/
theorem expandsTo_of_settled {metadata : Metadata} {e r : Expr} {cs : List Expr} {w w' : Work}
    (hcs : List.Forall₂ ExpandsTo e.children cs)
    (h : Normalization.Settled metadata e cs w r w') : e.ExpandsTo r := by
  obtain ⟨shape, query, answer, backed⟩ := h
  simp only [children_call, List.forall₂_cons] at hcs
  obtain ⟨hreceiver, harguments⟩ := hcs
  have takes := Method.takes_of_access? shape
  rw [harguments.length_eq] at takes
  obtain ⟨l', hexpand⟩ := expand_canonicalNode takes backed
  unfold ExpandsTo
  rw [hexpand, unlabelled, unlabelled, hreceiver, unlabelledAll_expandAll harguments]

/-- The children of a plain tree are plain, so what they became expands to them. -/
theorem forall₂_expandsTo {e : Expr} {cs : List Expr} (hplain : e.Plain)
    (h : List.Forall₂ (fun c c' => c.Plain → c.ExpandsTo c') e.children cs) :
    List.Forall₂ ExpandsTo e.children cs := by
  have hchild : ∀ c ∈ e.children, c.Plain := by
    intro c hc n hn
    exact hplain n (mem_nodes_of_mem_children hc hn)
  exact ((List.forall₂_and_left _ _).mpr ⟨hchild, h⟩).imp fun _ _ h => h.2 h.1

/-- What a tree without canonical forms is normalized to expands to the tree. -/
theorem expandsTo_of_visit {metadata : Metadata} {e r : Expr} {w w' : Work}
    (known : e.labelsBelow w.nextLabel = true)
    (hplain : e.Plain) (h : (Normalization.normalizer metadata).Visit e w r w') :
    e.ExpandsTo r := by
  revert hplain
  refine Normalization.normalizer_induction ?_ ?_ ?_ known h
  · intro _
    rfl
  · intro e cs w r w' hk _ _ _ hfaithful ih _ hrefit hplain
    obtain ⟨k, hkind⟩ := Option.isSome_iff_exists.mp hk
    have hroot := hplain e (self_mem_nodes (isAbsent_of_kind? hkind))
    obtain ⟨l, rfl⟩ := exists_rebuild_of_refit hk hfaithful hrefit
    exact expandsTo_rebuild hroot (forall₂_expandsTo hplain ih)
  · intro e cs w r w' _ _ ih _ hsettled hplain
    exact expandsTo_of_settled (forall₂_expandsTo hplain ih) hsettled

/-! Equal trees expand to equal trees, so nothing two trees differ in is lost on the way. -/

variable {payload : Value → Value → Bool}

/-- Lists that are alike expand to lists that are. -/
theorem alikeAll_expandAll {as bs : List Expr}
    (ih : ∀ a ∈ as, ∀ b, alike payload a b = true → alike payload a.expand b.expand = true)
    (h : alikeAll payload as bs = true) :
    alikeAll payload (expandAll as) (expandAll bs) = true := by
  induction as generalizing bs with
  | nil => cases bs <;> simp [alikeAll, expandAll] at h ⊢
  | cons a as ihas =>
    cases bs with
    | nil => cases h
    | cons b bs =>
      rw [alikeAll, Bool.and_eq_true] at h
      rw [expandAll, expandAll, alikeAll, ih a (by simp) b h.1, Bool.true_and]
      exact ihas (fun a' ha' => ih a' (by simp [ha'])) h.2

/-- Assignments to targets that are alike expand to trees that are alike. The expansions of the
targets are known to be alike, and show it for what the targets read from. -/
theorem alike_expand_assign {t u v w : Expr} {l l' : Label} (h : alike payload t u = true)
    (htarget : alike payload t.expand u.expand = true)
    (hvalue : alike payload v.expand w.expand = true) :
    alike payload (assign l t v).expand (assign l' u w).expand = true := by
  cases t with
  | member _ r p =>
    cases u with
    | member _ s q =>
      simp only [alike, Bool.and_eq_true, beq_iff_eq] at h
      obtain ⟨-, rfl⟩ := h
      simp only [expand, alike, Bool.and_eq_true] at htarget
      simp [expand, alike, alikeAll, htarget, hvalue]
    | _ => cases h
  | index _ r p as =>
    cases u with
    | index _ s q bs =>
      simp only [alike, Bool.and_eq_true, beq_iff_eq] at h
      obtain ⟨⟨-, rfl⟩, -⟩ := h
      simp only [expand, alike, Bool.and_eq_true] at htarget
      obtain ⟨⟨hreceiver, -⟩, harguments⟩ := htarget
      simp only [expand, alike, hreceiver, beq_self_eq_true, Bool.true_and]
      rw [alikeAll_iff_forall₂] at harguments ⊢
      exact List.rel_append harguments (.cons hvalue .nil)
    | _ => cases h
  | _ => cases u <;> simp_all [expand, alike]

/-- Trees that are alike expand to trees that are alike. -/
theorem alike_expand {a b : Expr} (h : alike payload a b = true) :
    alike payload a.expand b.expand = true := by
  induction a generalizing b with
  | absent | constant _ _ _ | parameter _ _ _ | bare _ => cases b <;> simp_all [expand, alike]
  | assign l t v iht ihv =>
    cases b with
    | assign l' u w =>
      simp only [alike, Bool.and_eq_true] at h
      exact alike_expand_assign h.1 (iht h.1) (ihv h.2)
    | _ => cases h
  | member l r p ihr => cases b <;> simp_all [expand, alike, alikeAll]
  | index l r p as ihr ihas | call l r p as ihr ihas =>
    cases b <;> simp_all [expand, alike, alikeAll_expandAll ihas]
  | unary l o x t ihx => cases b <;> simp_all [expand, alike]
  | binary l o x y t ihx ihy => cases b <;> simp_all [expand, alike]
  | conditional l c x y ihc ihx ihy => cases b <;> simp_all [expand, alike]
  | lambda l ps b ihps ihb => cases b <;> simp_all [expand, alike]

end Expr

/-- What a plain tree is normalized to expands to the tree, up to labels. -/
theorem unlabelled_expand_of_normalize {metadata : Metadata} {t r : Expr} {w w' : Work}
    (known : t.labelsBelow w.nextLabel = true) (plain : t.Plain)
    (h : normalize metadata t w = .ok r w') : r.expand.unlabelled = t.unlabelled := by
  obtain ⟨w₁, haccept, -⟩ := normalize_eq_ok_iff.mp h
  obtain ⟨-, hvisit⟩ := Transformer.visit_of_accept haccept
  exact Expr.expandsTo_of_visit (w := { w with settled := 0 }) known plain hvisit

/-- Normalization loses nothing: of a tree in which all access is through calls, new nodes having
labels that the tree has not, the normal form expands to an equal tree. So trees with equal normal
forms are equal, even if different metadata led to them. -/
theorem expand_normalize {metadata : Metadata} {t r : Expr} {w w' : Work}
    (known : t.labelsBelow w.nextLabel = true) (plain : t.Plain)
    (h : normalize metadata t w = .ok r w') :
    r.expand.equal t = true ∧
      ∀ {metadata₂ : Metadata} {t₂ r₂ : Expr} {v v' : Work},
        t₂.labelsBelow v.nextLabel = true → t₂.Plain → normalize metadata₂ t₂ v = .ok r₂ v' →
        r.equal r₂ = true → t.equal t₂ = true := by
  have hr := unlabelled_expand_of_normalize known plain h
  refine ⟨Expr.equal_of_unlabelled_eq hr, ?_⟩
  intro metadata₂ t₂ r₂ v v' known₂ plain₂ h₂ hequal
  have hr₂ := unlabelled_expand_of_normalize known₂ plain₂ h₂
  have hexpand : r.expand.equal r₂.expand = true := Expr.alike_expand hequal
  rw [← Expr.equal_congr hr hr₂]
  exact hexpand

/-- The copied cell expands to the calls that it was read and written with. -/
theorem expand_normalize_copyFirst :
    Grid.copyFirst.labelsBelow 6 = true ∧ Grid.copyFirst.Plain ∧
      (∃ w', normalize Grid.provider Grid.copyFirst (Work.start 6) = .ok Grid.copiedFirst w') ∧
      Grid.copiedFirst.expand.equal Grid.copyFirst = true := by
  exact ⟨by decide, by decide, ⟨_, Grid.normalize_copyFirst⟩,
    (expand_normalize (by decide) (by decide) Grid.normalize_copyFirst).1⟩

end CanonicalAccess
