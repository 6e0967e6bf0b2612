import CanonicalAccess.Proofs.Sharing
import CanonicalAccess.Proofs.Stability

/-!
# Normalizing a part first

Any part of a tree may be normalized before the tree is. What a call is taken for, and where it
leads, depends on its method and on the number of its arguments, and both stay as they are when a
node above the part is rebuilt; so the calls outside the part are settled as they would have been,
and those inside are not there any more. The results agree and the counts add up
(`normalize_replaceAt`).

`Grafted` is the relation between the tree and the one with the part replaced, without labels of
its own: one step for every node on the way, the children before and after the way being shared.
-/

set_option autoImplicit false

namespace CanonicalAccess

/-! ### The labels of a result are taken -/

/-- A node that is built of known parts is known if its label is. -/
theorem Expr.labelsBelow_rebuild {n l : Label} {e : Expr} {cs : List Expr}
    (hlen : cs.length = e.children.length) (he : e.labelsBelow n = true) (hl : l < n)
    (hcs : ∀ c ∈ cs, c.labelsBelow n = true) : (e.rebuild l cs).labelsBelow n = true := by
  induction e, cs, hlen using children_cases with
  | absent | constant | parameter | bare => exact he
  | lambda l₀ ps b b' => simp_all [rebuild, labelsBelow]
  | _ => simp_all [rebuild, labelsBelow, labelsBelowAll_eq_all]

/-- A node with other known children is known. -/
theorem Expr.labelsBelow_of_refit {e r : Expr} {cs : List Expr} {w w' : Work}
    (hfaithful : Faithful e.children cs) (known : e.labelsBelow w.nextLabel = true)
    (hcs : ∀ c ∈ cs, c.labelsBelow w.nextLabel = true) (h : e.refit cs w = .ok r w') :
    r.labelsBelow w'.nextLabel = true := by
  rcases refit_ok hfaithful h with ⟨-, rfl, rfl⟩ | ⟨-, rfl, rfl⟩
  · exact known
  · have hle : w.nextLabel ≤ w.nextLabel + 1 := Nat.le_succ _
    exact labelsBelow_rebuild hfaithful.length_eq.symm (labelsBelow_mono hle e known)
      (Nat.lt_succ_self _) fun c hc => labelsBelow_mono hle c (hcs c hc)

/-- A canonical node is known if its parts and its new labels are. -/
theorem Normalization.labelsBelow_canonicalNode {n l : Label} {a : Access} {p : Property}
    {receiver : Expr} {arguments : List Expr} (hl : l + a.newNodes ≤ n)
    (hreceiver : receiver.labelsBelow n = true)
    (harguments : ∀ x ∈ arguments, x.labelsBelow n = true) :
    (canonicalNode l a p receiver arguments).labelsBelow n = true := by
  have hlast : (arguments.getLastD .absent).labelsBelow n = true := by
    cases arguments with
    | nil => rfl
    | cons x xs => exact harguments _ (Normalized.getLastD_mem (List.cons_ne_nil x xs))
  have hinit : ∀ x ∈ arguments.dropLast, x.labelsBelow n = true :=
    fun x hx => harguments x (List.dropLast_subset _ hx)
  cases a <;>
    simp only [Access.newNodes] at hl <;>
    simp only [canonicalNode, Expr.labelsBelow, Expr.labelsBelowAll_eq_all, Bool.and_eq_true,
      decide_eq_true_eq, List.all_eq_true]
  case readProperty => exact ⟨hl, hreceiver⟩
  case readIndexer => exact ⟨⟨hl, hreceiver⟩, harguments⟩
  case writeProperty => exact ⟨⟨hl, Nat.lt_of_succ_lt hl, hreceiver⟩, hlast⟩
  case writeIndexer => exact ⟨⟨hl, ⟨Nat.lt_of_succ_lt hl, hreceiver⟩, hinit⟩, hlast⟩

namespace Normalization

variable {metadata : Metadata}

/-- What the normalizer concludes from known children is known. -/
theorem labelsBelow_of_conclude {e r : Expr} {cs : List Expr} {w w' : Work}
    (hfaithful : Expr.Faithful e.children cs) (known : e.labelsBelow w.nextLabel = true)
    (hcs : ∀ c ∈ cs, c.labelsBelow w.nextLabel = true)
    (h : (normalizer metadata).conclude e cs w = .ok r w') : r.labelsBelow w'.nextLabel = true := by
  rcases conclude_cases hfaithful h with ⟨-, -, hrefit⟩ | ⟨-, hsettled⟩
  · exact Expr.labelsBelow_of_refit hfaithful known hcs hrefit
  · obtain @⟨_, _, receiver', m, _, _, a, _, q, p, _, shape, query, answer, backed⟩ := hsettled
    have hle : w.nextLabel ≤ (settledWork w m a q).nextLabel := Nat.le_add_right _ _
    rw [List.forall_mem_cons] at hcs
    exact labelsBelow_canonicalNode (Nat.le_refl _) (Expr.labelsBelow_mono hle _ hcs.1)
      fun x hx => Expr.labelsBelow_mono hle x (hcs.2 x hx)

/-- What a walk hands back holds no label that is still free. -/
theorem labelsBelow_of_visit {e r : Expr} {w w' : Work} (known : e.labelsBelow w.nextLabel = true)
    (h : (normalizer metadata).Visit e w r w') : r.labelsBelow w'.nextLabel = true :=
  (Transformer.labelsBelow_of_visit (careful_normalizer metadata)
    (fun _ _ _ _ _ => labelsBelow_of_conclude) known h).2

end Normalization

/-! ### A part that has given way -/

namespace Expr

/-- A tree, and the tree in which one occurrence of a part has given way to another expression and
the nodes above it are rebuilt. -/
inductive Grafted (s s' : Expr) : Expr → Expr → Prop where
  | here : Grafted s s' s s'
  | inside {e c c' : Expr} {before after : List Expr} (l : Label)
      (children : e.children = before ++ c :: after) (grafted : Grafted s s' c c') :
      Grafted s s' e (e.rebuild l (before ++ c' :: after))

/-- To put another child in the place of one is to rebuild the node. -/
theorem withChildren_set {e c : Expr} {i : Nat} (hc : e.children[i]? = some c) (l : Label)
    (c' : Expr) :
    e.withChildren l (e.operandsWith i c') (e.itemsWith i c') =
      e.rebuild l (e.children.set i c') := by
  cases e with
  | absent | constant _ _ _ | parameter _ _ _ | bare _ =>
    simp [children, operands, items] at hc
  | index l₀ r p as | call l₀ r p as =>
    cases i with
    | zero => rfl
    | succ i => simp [operandsWith, itemsWith, operands, items, withChildren, rebuild]
  | member l₀ r p | unary l₀ o x t | lambda l₀ ps x =>
    cases i with
    | zero => rfl
    | succ i => simp at hc
  | assign l₀ x y | binary l₀ o x y t =>
    rcases i with _ | _ | i
    · rfl
    · rfl
    · simp at hc
  | conditional l₀ x y z =>
    rcases i with _ | _ | _ | i
    · rfl
    · rfl
    · rfl
    · simp at hc

/-- If one expression of a list is replaced, the lists hold the same nodes exactly if it is the
same. -/
theorem sameAll_set {es : List Expr} {c : Expr} {i : Nat} (hc : es[i]? = some c) (c' : Expr) :
    sameAll es (es.set i c') = c.same c' := by
  induction es generalizing i with
  | nil => simp at hc
  | cons e es ih =>
    cases i with
    | zero =>
      rw [List.getElem?_cons_zero, Option.some.injEq] at hc
      rw [List.set_cons_zero, sameAll, hc, sameAll_refl, Bool.and_true]
    | succ i =>
      rw [List.getElem?_cons_succ] at hc
      rw [List.set_cons_succ, sameAll, same_refl, Bool.true_and, ih hc]

/-- The children of a node with one replaced are its own exactly if the one is the same node. -/
theorem hasChildren_set {e c : Expr} {i : Nat} (hc : e.children[i]? = some c) (c' : Expr) :
    e.hasChildren (e.operandsWith i c') (e.itemsWith i c') = c.same c' := by
  have hplace : (e.operands ++ e.items)[i]? = some c := by
    cases e with
    | lambda l ps b =>
      cases i with
      | zero => exact hc
      | succ i => simp at hc
    | _ => exact hc
  unfold hasChildren operandsWith itemsWith
  by_cases hi : i < e.operands.length
  · rw [List.getElem?_append_left hi] at hplace
    rw [if_pos hi, sameAll_refl, Bool.and_true, sameAll_set hplace]
  · rw [List.getElem?_append_right (by omega)] at hplace
    rw [if_neg hi, List.set_eq_of_length_le (by omega), sameAll_refl, Bool.true_and,
      sameAll_set hplace]

/-- To update a node with one of its children replaced is to hand it back if the child is the same
node, and else to rebuild it. -/
theorem exists_update_set {n : Label} {e c c' : Expr} {i : Nat} (hc : e.children[i]? = some c)
    (known : e.labelsBelow n = true) (hnew : SameOrNew n c c') {w : Work} (hn : n ≤ w.nextLabel)
    (knownNew : c'.labelsBelow w.nextLabel = true) :
    ∃ l w' r, e.update (e.operandsWith i c') (e.itemsWith i c') w = .ok r w' ∧
      r = e.rebuild l (e.children.set i c') ∧ w.nextLabel ≤ w'.nextLabel ∧ SameOrNew n e r ∧
      r.labelsBelow w'.nextLabel = true := by
  have hmem : c ∈ e.children := List.mem_of_getElem? hc
  have knownHere := labelsBelow_mono hn e known
  rw [update_apply, hasChildren_set hc, withChildren_set hc]
  by_cases hsame : c.same c' = true
  · have hcomm : c'.same c = true := by
      unfold same at hsame ⊢
      rwa [Bool.beq_comm]
    obtain rfl := hnew.eq_of_same (labelsBelow_of_mem_children known hmem) hcomm
    obtain ⟨l, hself⟩ := exists_rebuild_self e
    obtain ⟨hi, hget⟩ := List.getElem?_eq_some_iff.mp hc
    rw [if_pos hsame]
    refine ⟨l, w, e, rfl, ?_, Nat.le_refl _, .inl rfl, knownHere⟩
    rw [← hget, List.set_getElem_self, hself]
  · rw [if_neg hsame]
    have hne : e.children.set i c' ≠ e.children := by
      intro heq
      rw [← sameAll_set hc, heq, sameAll_refl] at hsame
      exact hsame rfl
    refine ⟨w.nextLabel, _, _, rfl, rfl, Nat.le_succ _, ?_, ?_⟩
    · exact .inr ⟨w.nextLabel, label?_rebuild List.length_set hne, hn⟩
    · refine labelsBelow_rebuild List.length_set (labelsBelow_mono (Nat.le_succ _) e knownHere)
        (Nat.lt_succ_self _) ?_
      intro x hx
      refine labelsBelow_mono (Nat.le_succ _) x ?_
      rcases List.mem_or_eq_of_mem_set hx with hx | rfl
      · exact labelsBelow_of_mem_children knownHere hx
      · exact knownNew

/-- A replacement always succeeds; it takes labels, and what it hands back holds none that is still
free. -/
theorem exists_replaceAt {n : Label} {t s s' : Expr} {path : Path} {w : Work}
    (position : t.subtree? path = some s) (known : t.labelsBelow n = true) (hnew : SameOrNew n s s')
    (hn : n ≤ w.nextLabel) (knownNew : s'.labelsBelow w.nextLabel = true) :
    ∃ t' w', replaceAt s' path t w = .ok t' w' ∧ Grafted s s' t t' ∧ w.nextLabel ≤ w'.nextLabel ∧
      SameOrNew n t t' ∧ t'.labelsBelow w'.nextLabel = true := by
  induction path generalizing t with
  | nil =>
    cases position
    exact ⟨s', w, rfl, .here, Nat.le_refl _, hnew, knownNew⟩
  | cons i path ih =>
    cases hc : t.children[i]? with
    | none =>
      rw [subtree?, hc] at position
      cases position
    | some c =>
      rw [subtree?, hc] at position
      have knownChild := labelsBelow_of_mem_children known (List.mem_of_getElem? hc)
      obtain ⟨c', w₁, hrun, hgrafted, hle, hnewChild, knownResult⟩ := ih position knownChild
      obtain ⟨l, w₂, t', hupdate, rfl, hle', hnewTree, knownTree⟩ :=
        exists_update_set hc known hnewChild (Nat.le_trans hn hle) knownResult
      obtain ⟨hi, hget⟩ := List.getElem?_eq_some_iff.mp hc
      obtain ⟨before, after, hsplit, -, hset⟩ : ∃ before after, t.children =
          before ++ t.children[i] :: after ∧ before.length = i ∧
            t.children.set i c' = before ++ c' :: after := List.exists_of_set hi
      rw [hget] at hsplit
      refine ⟨_, w₂, ?_, ?_, Nat.le_trans hle hle', hnewTree, knownTree⟩
      · rw [replaceAt, hc]
        exact (Transform.bind_eq_ok_iff _ _ _ _ _).mpr ⟨c', w₁, hrun, hupdate⟩
      · rw [hset]
        exact .inside l hsplit hgrafted

/-! What holds of a tree and of the tree in which a part has given way, by steps on the way. -/

variable {s s' e e' : Expr}

/-- A node with a child is there. -/
theorem isAbsent_of_split {before after : List Expr} {c : Expr}
    (h : e.children = before ++ c :: after) : e.isAbsent = false := by
  cases e with
  | absent => simp [children, operands, items] at h
  | _ => rfl

/-- A related child between children related to themselves. -/
theorem forall₂_split {R : Expr → Expr → Prop} {before after : List Expr} {c c' : Expr}
    (h : e.children = before ++ c :: after) (hself : ∀ x ∈ e.children, R x x) (hc : R c c') :
    List.Forall₂ R e.children (before ++ c' :: after) := by
  rw [h] at hself ⊢
  simp only [List.forall_mem_append, List.forall_mem_cons] at hself
  exact List.rel_append (List.forall₂_same.mpr hself.1)
    (.cons hc (List.forall₂_same.mpr hself.2.2))

/-- A tree that lacks nothing goes on to lack nothing if the part gives way to something that may
stand for it. -/
theorem Grafted.fits (h : Grafted s s' e e') (hs : Fits s s')
    (hcomplete : e.isAbsent = false → e.complete = true) : Fits e e' := by
  induction h with
  | here => exact hs
  | @inside e c c' before after l hsplit _ ih =>
    obtain ⟨hk, hm, hrequired, hchildren⟩ :=
      (complete_iff_children e).mp (hcomplete (isAbsent_of_split hsplit))
    have hself : ∀ x ∈ e.children, Fits x x := fun x hx => ⟨rfl, hchildren x hx⟩
    have hc : Fits c c' := ih (hchildren c (by simp [hsplit]))
    exact Fits.rebuild (forall₂_split hsplit hself hc) hk hm hrequired

variable {provider : Provider}

/-- Whether the metadata leads back from a call does not depend on what its children became. -/
theorem roundTrips_rebuild {l : Label} {cs : List Expr} (hlen : cs.length = e.children.length) :
    (e.rebuild l cs).RoundTrips provider ↔ e.RoundTrips provider := by
  induction e, cs, hlen using children_cases with
  | call l₀ r m as r' as' length =>
    cases m with
    | absent | property p => exact Iff.rfl
    | method m => simp only [rebuild, RoundTrips, length]
  | _ => exact Iff.rfl

/-- The metadata leads back from every accessor call of a tree. -/
def InOrder (provider : Provider) (e : Expr) : Prop :=
  ∀ c ∈ e.accessorCalls, c.RoundTrips provider

/-- A tree is in order if its children are and the metadata leads back from its root, should that be
an accessor call. -/
theorem inOrder_iff_children : e.InOrder provider ↔
    (∀ c ∈ e.children, c.InOrder provider) ∧
      (e.isAccessorShaped = true → e.RoundTrips provider) := by
  unfold InOrder
  rw [accessorCalls_eq_flatMap_children, List.forall_mem_append, List.forall_mem_flatMap]
  cases e.isAccessorShaped <;> simp

/-- Whether all calls are in order does not depend on the part, if that gives way to one whose calls
are in order as its own are. -/
theorem Grafted.inOrder_iff (h : Grafted s s' e e')
    (hs : s'.InOrder provider ↔ s.InOrder provider) :
    e'.InOrder provider ↔ e.InOrder provider := by
  induction h with
  | here => exact hs
  | @inside e c c' before after l hsplit _ ih =>
    have hlen : (before ++ c' :: after).length = e.children.length := by simp [hsplit]
    rw [inOrder_iff_children, inOrder_iff_children (e := e), children_rebuild hlen,
      isAccessorShaped_rebuild hlen, roundTrips_rebuild hlen, hsplit]
    simp only [List.forall_mem_append, List.forall_mem_cons, ih]

/-- The calls of a tree are those of a normal part's predecessor and those that are left. -/
theorem Grafted.length_accessorCalls (h : Grafted s s' e e') (hs : s'.Normal) :
    e.accessorCalls.length = s.accessorCalls.length + e'.accessorCalls.length := by
  induction h with
  | here => simp [(normal_iff_accessorCalls_eq_nil s').mp hs]
  | @inside e c c' before after l hsplit _ ih =>
    have hlen : (before ++ c' :: after).length = e.children.length := by simp [hsplit]
    have hroot : (if (e.rebuild l (before ++ c' :: after)).isAccessorShaped then
        [e.rebuild l (before ++ c' :: after)] else []).length =
        (if e.isAccessorShaped then [e] else []).length := by
      rw [isAccessorShaped_rebuild hlen]
      cases e.isAccessorShaped <;> rfl
    rw [accessorCalls_eq_flatMap_children, accessorCalls_eq_flatMap_children (e.rebuild _ _),
      List.length_append, List.length_append, hroot, children_rebuild hlen, hsplit]
    simp only [List.flatMap_append, List.flatMap_cons, List.length_append, ih]
    omega

/-- A tree and the one with a part replaced come to the same if the part and its replacement do. -/
theorem Grafted.agree {carries : Method → Nat → Access → Property → Prop}
    (unique : ∀ m n a p p', carries m n a p → carries m n a p' → p = p')
    (h : Grafted s s' e e') (hs : Agree carries s s') : Agree carries e e' := by
  induction h with
  | here => exact hs
  | @inside e c c' before after l hsplit _ ih =>
    exact Agree.rebuild unique l (forall₂_split hsplit (fun x _ => Agree.refl unique x) ih)

/-- A normal tree comes to itself. -/
theorem Replaced.of_normal {carries : Method → Nat → Access → Property → Prop} (h : e.Normal) :
    Replaced carries e e := by
  induction e using children_induction with
  | step e ih =>
    obtain ⟨hshaped, hchildren⟩ := (normal_iff_children e).mp h
    obtain ⟨l, hself⟩ := exists_rebuild_self e
    have hkept : Replaced carries e (e.rebuild l e.children) :=
      .kept l hshaped (List.forall₂_same.mpr fun c hc => ih c hc (hchildren c hc))
    rwa [hself] at hkept

/-- A part comes to the same as the normal tree that it comes to. -/
theorem Agree.of_replaced {carries : Method → Nat → Access → Property → Prop}
    (unique : ∀ m n a p p', carries m n a p → carries m n a p' → p = p')
    (h : Replaced carries s s') (hnormal : s'.Normal) : Agree carries s s' := by
  intro r r' hr hr'
  calc r.unlabelled = s'.unlabelled := hr.unlabelled_unique unique h
    _ = r'.unlabelled := (Replaced.of_normal hnormal).unlabelled_unique unique hr'

end Expr

/-- Every subtree of a complete tree is complete, or absent. -/
theorem Expr.complete_of_subtree? {path : Expr.Path} {t s : Expr}
    (h : t.isAbsent = false → t.complete = true) (position : t.subtree? path = some s) :
    s.isAbsent = false → s.complete = true := by
  induction path generalizing t with
  | nil =>
    cases position
    exact h
  | cons i path ih =>
    cases hc : t.children[i]? with
    | none =>
      rw [subtree?, hc] at position
      cases position
    | some c =>
      rw [subtree?, hc] at position
      have hmem : c ∈ t.children := List.mem_of_getElem? hc
      have hpresent : t.isAbsent = false := by
        cases t with
        | absent => simp [children, operands, items] at hmem
        | _ => rfl
      obtain ⟨-, -, -, hchildren⟩ := (complete_iff_children t).mp (h hpresent)
      exact ih (hchildren c hmem) position

namespace Normalization

/-- The count that a normalization ends with is that of the accessor calls of the tree. -/
theorem settled_of_normalize {metadata : Metadata} {t r : Expr} {w w' : Work}
    (h : normalize metadata t w = .ok r w') : w'.settled = t.accessorCalls.length := by
  obtain ⟨w₁, haccept, rfl⟩ := normalize_eq_ok_iff.mp h
  obtain ⟨-, hvisit⟩ := Transformer.visit_of_accept haccept
  simpa using settled_of_visit hvisit

/-- Trees that come to the same are normalized to equal trees. -/
theorem equal_of_agree {provider : Provider} {t t' r r' : Expr} {v v' u u' : Work}
    (hagree : Expr.Agree (Method.LeadsTo provider) t t') (known : t.labelsBelow v.nextLabel = true)
    (known' : t'.labelsBelow v'.nextLabel = true) (h : normalize provider t v = .ok r u)
    (h' : normalize provider t' v' = .ok r' u') : r'.equal r = true :=
  Expr.equal_of_unlabelled_eq
    (hagree r r' (replaced_of_normalize known h) (replaced_of_normalize known' h')).symm

end Normalization

/-- Any part of a complete tree that can be normalized may be normalized first. The tree with the
part replaced by its normal form, the nodes above it being updated, is normalized exactly if the
tree is, to an equal tree, and the calls settled before and after add up to those of the tree. -/
theorem normalize_replaceAt {provider : Provider} {t s s' : Expr} {path : Expr.Path} {w w' : Work}
    (complete : t.complete = true) (known : t.labelsBelow w.nextLabel = true)
    (position : t.subtree? path = some s) (first : normalize provider s w = .ok s' w') :
    ∃ t' w₁, Expr.replaceAt s' path t w' = .ok t' w₁ ∧
      ∀ v v' : Work, t.labelsBelow v.nextLabel = true → w₁.nextLabel ≤ v'.nextLabel →
        ((∃ r u, normalize provider t' v' = .ok r u) ↔ ∃ r u, normalize provider t v = .ok r u) ∧
        ∀ r u r' u', normalize provider t v = .ok r u → normalize provider t' v' = .ok r' u' →
          r'.equal r = true ∧ u.settled = w'.settled + u'.settled := by
  have knownPart := Expr.labelsBelow_of_subtree? known position
  obtain ⟨w₀, haccept, rfl⟩ := normalize_eq_ok_iff.mp first
  obtain ⟨hpresent, hvisit⟩ := Transformer.visit_of_accept haccept
  obtain ⟨hle, hnew⟩ :=
    Transformer.visit_sameOrNew (Normalization.careful_normalizer provider) hvisit
  have hnormalized := Normalized.of_visit (w := { w with settled := 0 }) knownPart hvisit
  have knownNew :=
    Normalization.labelsBelow_of_visit (w := { w with settled := 0 }) knownPart hvisit
  obtain ⟨t', w₁, hrun, hgrafted, -, -, known'⟩ :=
    Expr.exists_replaceAt (w := { w₀ with log := w₀.log ++ [.normalized w₀.settled] })
      position known hnew hle knownNew
  refine ⟨t', w₁, hrun, ?_⟩
  intro v v' knownTree hafter
  have knownResult := Expr.labelsBelow_mono hafter t' known'
  have hfits := hgrafted.fits hnormalized.fits fun _ => complete
  have complete' := hfits.complete (hfits.isAbsent.trans (Expr.isAbsent_of_complete complete))
  refine ⟨?_, ?_⟩
  · have hpart : s.InOrder provider :=
      (Normalization.exists_ok_iff_roundTrips
        (Expr.complete_of_subtree? (fun _ => complete) position hpresent) w).mp ⟨_, _, first⟩
    have hpart' : s'.InOrder provider := by
      unfold Expr.InOrder
      rw [(Expr.normal_iff_accessorCalls_eq_nil s').mp hnormalized.normal]
      simp
    rw [Normalization.exists_ok_iff_roundTrips complete,
      Normalization.exists_ok_iff_roundTrips complete']
    exact hgrafted.inOrder_iff (iff_of_true hpart' hpart)
  · intro r u r' u' h h'
    have unique : ∀ m n a p p', Method.LeadsTo provider m n a p →
        Method.LeadsTo provider m n a p' → p = p' := fun _ _ _ _ _ hp hp' => (hp.unique hp').2
    have hreplaced := Expr.Replaced.of_visit (w := { w with settled := 0 }) knownPart hvisit
    have hpartAgrees := Expr.Agree.of_replaced unique hreplaced hnormalized.normal
    have hagree := hgrafted.agree unique hpartAgrees
    refine ⟨Normalization.equal_of_agree hagree knownTree knownResult h h', ?_⟩
    have hcount := hgrafted.length_accessorCalls hnormalized.normal
    rw [Normalization.settled_of_normalize first, Normalization.settled_of_normalize h,
      Normalization.settled_of_normalize h', hcount]

namespace Grid

/-- What reading the first cell is normalized to. -/
def firstCell : Expr := .index 6 grid (.property cells) [first]

/-- The read of the first cell alone is normalized to an index. -/
theorem normalize_readFirst :
    normalize provider readFirst (Work.start 6) = .ok firstCell
      { nextLabel := 7
        log := [.replaced "get_Item" .index, .normalized 1]
        settled := 1
        asked := [.indexer type "Item" .f64 [.i32]] } := rfl

end Grid

/-- The read inside the write may be normalized first: one call is left for the second run. -/
theorem normalize_replaceAt_copyFirst :
    Grid.copyFirst.complete = true ∧ Grid.copyFirst.labelsBelow 6 = true ∧
      Grid.copyFirst.subtree? [0, 2] = some Grid.readFirst ∧
      ∃ w' t' w₁ r' u',
        normalize Grid.provider Grid.readFirst (Work.start 6) = .ok Grid.firstCell w' ∧
        Expr.replaceAt Grid.firstCell [0, 2] Grid.copyFirst w' = .ok t' w₁ ∧
        normalize Grid.provider t' w₁ = .ok r' u' ∧ r'.equal Grid.copiedFirst = true ∧
        u'.settled = 1 := by
  have known : Grid.copyFirst.labelsBelow (Work.start 6).nextLabel = true := by decide
  have position : Grid.copyFirst.subtree? [0, 2] = some Grid.readFirst := rfl
  obtain ⟨t', w₁, hrun, hresult⟩ :=
    normalize_replaceAt (by decide) known position Grid.normalize_readFirst
  obtain ⟨hiff, hagree⟩ := hresult (Work.start 6) w₁ known (Nat.le_refl _)
  obtain ⟨r', u', hrest⟩ := hiff.mpr ⟨_, _, Grid.normalize_copyFirst⟩
  obtain ⟨hequal, hcount⟩ := hagree _ _ r' u' Grid.normalize_copyFirst hrest
  refine ⟨by decide, known, position, _, t', w₁, r', u', Grid.normalize_readFirst, hrun, hrest,
    hequal, ?_⟩
  have hadd : 2 = 1 + u'.settled := hcount
  omega

end CanonicalAccess
