import CanonicalAccess.Proofs.Settlement

/-!
# Normal forms

Normalization leaves no accessor call behind, below the nodes it makes no more than elsewhere. And
a normal form is left alone: another run hands back the very same tree, asks nothing and makes
nothing, so it does not matter which metadata it is given.
-/

set_option autoImplicit false

namespace CanonicalAccess

namespace Expr

/-- Whether a node has a receiver depends on its kind. -/
theorem hasReceiver_of_kind? {e e' : Expr} (h : e'.kind? = e.kind?) :
    e'.hasReceiver = e.hasReceiver := by
  cases e <;> cases e' <;> first | rfl | cases h

/-! A rebuilt node is what it was but for its children. -/

variable {l : Label} {e : Expr} {cs : List Expr}

/-- A rebuilt node is of the same kind. -/
theorem kind?_rebuild (hlen : cs.length = e.children.length) :
    (e.rebuild l cs).kind? = e.kind? := by
  induction e, cs, hlen using children_cases with
  | _ => rfl

/-- A rebuilt call goes to the same method. -/
theorem callsMethod_rebuild (hlen : cs.length = e.children.length) :
    (e.rebuild l cs).callsMethod = e.callsMethod := by
  induction e, cs, hlen using children_cases with
  | _ => rfl

/-- A rebuilt node is an accessor call exactly if it was one. -/
theorem isAccessorShaped_rebuild (hlen : cs.length = e.children.length) :
    (e.rebuild l cs).isAccessorShaped = e.isAccessorShaped := by
  induction e, cs, hlen using children_cases with
  | call l₀ r m as r' as' length =>
    cases m with
    | absent | property p => rfl
    | method m => simp only [rebuild, isAccessorShaped, length]
  | _ => rfl

/-- Of two rebuildings the second one counts. -/
theorem rebuild_rebuild {l' : Label} {cs' : List Expr} (hlen : cs.length = e.children.length)
    (hlen' : cs'.length = e.children.length) :
    (e.rebuild l cs).rebuild l' cs' = e.rebuild l' cs' := by
  induction e, cs, hlen using children_cases with
  | absent | constant | parameter | bare => rfl
  | index | call =>
    obtain ⟨r', as', rfl⟩ := List.exists_cons_of_length_eq_add_one hlen'
    rfl
  | member | unary | lambda =>
    obtain ⟨x', rfl⟩ := List.length_eq_one_iff.mp hlen'
    rfl
  | assign | binary =>
    obtain ⟨x', y', rfl⟩ := List.length_eq_two.mp hlen'
    rfl
  | conditional =>
    obtain ⟨c', x', y', rfl⟩ := List.length_eq_three.mp hlen'
    rfl

/-- What holds of the second of each pair holds of the second list. -/
theorem forall_of_forall₂ {holds : Expr → Prop} {es cs : List Expr}
    (h : List.Forall₂ (fun _ c => holds c) es cs) : ∀ c ∈ cs, holds c := by
  induction h with
  | nil => simp
  | cons head _ ih => exact List.forall_mem_cons.mpr ⟨head, ih⟩

/-- Nothing is missing in a list whose pair has nothing missing. -/
theorem forall_present {es cs : List Expr}
    (h : List.Forall₂ (fun e c => c.isAbsent = e.isAbsent) es cs)
    (hpresent : ∀ e ∈ es, e.isAbsent = false) : ∀ c ∈ cs, c.isAbsent = false := by
  induction h with
  | nil => simp
  | cons head _ ih =>
    rw [List.forall_mem_cons] at hpresent ⊢
    exact ⟨head.trans hpresent.1, ih hpresent.2⟩

/-- A node of the same kind lacks nothing either if what is there in the one is there in the other.
-/
theorem forall_required_present {e r : Expr} (hkind : r.kind? = e.kind?)
    (h : List.Forall₂ (fun c c' => c'.isAbsent = c.isAbsent) e.children r.children)
    (hrequired : ∀ c ∈ e.required, c.isAbsent = false) : ∀ c ∈ r.required, c.isAbsent = false := by
  rw [required_eq] at hrequired ⊢
  rw [hasReceiver_of_kind? hkind]
  split at hrequired
  · rename_i hreceiver
    rw [if_pos hreceiver]
    exact forall_present (by simpa using List.forall₂_drop 1 h) hrequired
  · rename_i hreceiver
    rw [if_neg hreceiver]
    exact forall_present h hrequired

/-- Every node is rebuilt, with its own label, to itself. -/
theorem exists_rebuild_self (e : Expr) : ∃ l, e.rebuild l e.children = e := by
  cases hl : e.label? with
  | none =>
    cases e with
    | absent => exact ⟨0, rfl⟩
    | _ => cases hl
  | some l => exact ⟨l, rebuild_self hl⟩

end Expr

/-- What may stand for an expression in a complete tree: nothing where nothing was, and else a
complete tree. -/
structure Fits (e r : Expr) : Prop where
  isAbsent : r.isAbsent = e.isAbsent
  complete : r.isAbsent = false → r.complete = true

/-- What fits in the places of complete trees is complete, or absent. -/
theorem Fits.forall_complete {es cs : List Expr} (h : List.Forall₂ Fits es cs) :
    ∀ c ∈ cs, c.isAbsent = false → c.complete = true :=
  Expr.forall_of_forall₂ (h.imp fun _ _ hc => hc.complete)

/-- A node that lacks nothing may give way to a node of its kind whose children may stand for its
own. -/
theorem Fits.of_children {e r : Expr} (hkind : r.kind? = e.kind?)
    (hcalls : r.callsMethod = e.callsMethod) (hcs : List.Forall₂ Fits e.children r.children)
    (hk : e.kind?.isSome = true) (hm : e.callsMethod = true)
    (hrequired : ∀ c ∈ e.required, c.isAbsent = false) : Fits e r := by
  refine ⟨?_, ?_⟩
  · obtain ⟨k, hk⟩ := Option.isSome_iff_exists.mp hk
    rw [Expr.isAbsent_of_kind? hk, Expr.isAbsent_of_kind? (hkind.trans hk)]
  · intro _
    rw [Expr.complete_iff_children, hkind, hcalls]
    exact ⟨hk, hm, Expr.forall_required_present hkind (hcs.imp fun _ _ hc => hc.isAbsent) hrequired,
      Fits.forall_complete hcs⟩

/-- So it goes on to lack nothing when it is rebuilt from them. -/
theorem Fits.rebuild {l : Label} {e : Expr} {cs : List Expr} (hcs : List.Forall₂ Fits e.children cs)
    (hk : e.kind?.isSome = true) (hm : e.callsMethod = true)
    (hrequired : ∀ c ∈ e.required, c.isAbsent = false) : Fits e (e.rebuild l cs) := by
  have hlen := hcs.length_eq.symm
  refine Fits.of_children (Expr.kind?_rebuild hlen) (Expr.callsMethod_rebuild hlen) ?_ hk hm hrequired
  rwa [Expr.children_rebuild hlen]

/-- What normalization makes of an expression: nothing where nothing was, and else a complete tree
without accessor calls. -/
structure Normalized (e r : Expr) : Prop where
  normal : r.Normal
  isAbsent : r.isAbsent = e.isAbsent
  complete : r.isAbsent = false → r.complete = true

namespace Normalized

variable {e r : Expr} {cs : List Expr}

/-- Normalized trees are normal. -/
theorem forall_normal {es : List Expr} (h : List.Forall₂ Normalized es cs) :
    ∀ c ∈ cs, c.Normal := by
  induction h with
  | nil => simp
  | cons head _ ih => simpa using ⟨head.normal, ih⟩

/-- What is normalized fits where the tree stood. -/
theorem fits (h : Normalized e r) : Fits e r := ⟨h.isAbsent, h.complete⟩

/-- A node that is no accessor call becomes one that is none when its children are normalized. -/
theorem rebuild {l : Label} (hcs : List.Forall₂ Normalized e.children cs)
    (hk : e.kind?.isSome = true) (hm : e.callsMethod = true) (hshaped : e.isAccessorShaped = false)
    (hrequired : ∀ c ∈ e.required, c.isAbsent = false) : Normalized e (e.rebuild l cs) := by
  have hlen := hcs.length_eq.symm
  have hfits : Fits e (e.rebuild l cs) := Fits.rebuild (hcs.imp fun _ _ h => h.fits) hk hm hrequired
  refine ⟨?_, hfits.isAbsent, hfits.complete⟩
  rw [Expr.normal_iff_children, Expr.children_rebuild hlen, Expr.isAccessorShaped_rebuild hlen]
  exact ⟨hshaped, forall_normal hcs⟩

/-! The parts of a canonical node are the receiver and the arguments of the call. -/

variable {l : Label} {a : Access} {p : Property} {receiver' : Expr}
  {arguments' : List Expr}

/-- The last of some expressions is one of them. -/
theorem getLastD_mem {es : List Expr} (hes : es ≠ []) : es.getLastD .absent ∈ es := by
  rw [List.getLastD_eq_getLast?, List.getLast?_eq_some_getLast hes, Option.getD_some]
  exact List.getLast_mem hes

/-- A canonical node of normal parts is normal. -/
theorem normal_canonicalNode (takes : a.Takes arguments'.length) (hreceiver : receiver'.Normal)
    (harguments : ∀ x ∈ arguments', x.Normal) :
    (Normalization.canonicalNode l a p receiver' arguments').Normal := by
  have hmember : ∀ l, (Expr.member l receiver' (.property p)).Normal := by
    intro l
    rw [Expr.normal_iff_children]
    simpa [Expr.isAccessorShaped] using hreceiver
  have hindex : ∀ l, ∀ as ⊆ arguments', (Expr.index l receiver' (.property p) as).Normal := by
    intro l as hsub
    rw [Expr.normal_iff_children]
    simpa [Expr.isAccessorShaped] using ⟨hreceiver, fun x hx => harguments x (hsub hx)⟩
  have hassign : ∀ l t, a.role = .setter → t.Normal →
      (Expr.assign l t (arguments'.getLastD .absent)).Normal := by
    intro l t hrole ht
    rw [Expr.normal_iff_children, Expr.children_assign, List.forall_mem_cons,
      List.forall_mem_singleton]
    exact ⟨rfl, ht, harguments _ (getLastD_mem (takes.ne_nil hrole))⟩
  cases a with
  | readProperty => exact hmember l
  | readIndexer => exact hindex l _ (List.Subset.refl _)
  | writeProperty => exact hassign _ _ rfl (hmember l)
  | writeIndexer => exact hassign _ _ rfl (hindex l _ (List.dropLast_subset _))

/-- A canonical node is there. -/
theorem isAbsent_canonicalNode :
    (Normalization.canonicalNode l a p receiver' arguments').isAbsent = false := by
  cases a <;> rfl

/-- A canonical node of complete parts is complete. -/
theorem complete_canonicalNode (takes : a.Takes arguments'.length)
    (hreceiver : receiver'.isAbsent = false → receiver'.complete = true)
    (harguments : ∀ x ∈ arguments', x.complete = true) :
    (Normalization.canonicalNode l a p receiver' arguments').complete = true := by
  have hreceiver : (receiver'.isAbsent || receiver'.complete) = true := by
    cases habsent : receiver'.isAbsent with
    | true => rfl
    | false => exact hreceiver habsent
  cases a with
  | readProperty => simpa [Normalization.canonicalNode, Expr.complete] using hreceiver
  | readIndexer =>
    simp only [Normalization.canonicalNode, Expr.complete, hreceiver, Expr.completeAll_eq_all,
      Bool.true_and, List.all_eq_true]
    exact harguments
  | writeProperty =>
    simp only [Normalization.canonicalNode, Expr.complete, hreceiver, Bool.true_and]
    exact harguments _ (getLastD_mem (takes.ne_nil rfl))
  | writeIndexer =>
    simp only [Normalization.canonicalNode, Expr.complete, hreceiver, Expr.completeAll_eq_all,
      Bool.true_and, Bool.and_eq_true, List.all_eq_true]
    exact ⟨fun x hx => harguments x (List.dropLast_subset _ hx),
      harguments _ (getLastD_mem (takes.ne_nil rfl))⟩

/-- An accessor call that was settled over normalized children is normalized. -/
theorem of_settled {metadata : Metadata} {w w' : Work} (hcs : List.Forall₂ Normalized e.children cs)
    (hrequired : ∀ c ∈ e.required, c.isAbsent = false)
    (h : Normalization.Settled metadata e cs w r w') : Normalized e r := by
  have hfits : List.Forall₂ Fits e.children cs := hcs.imp fun _ _ h => h.fits
  obtain ⟨shape, query, answer, backed⟩ := h
  have hnormal := forall_normal hcs
  have hcomplete := Fits.forall_complete hfits
  rw [Expr.children_call, List.forall₂_cons] at hfits
  rw [List.forall_mem_cons] at hnormal hcomplete
  have hpresent := Expr.forall_present (hfits.2.imp fun _ _ h => h.isAbsent) hrequired
  have takes := Method.takes_of_access? shape
  rw [hfits.2.length_eq] at takes
  refine ⟨normal_canonicalNode takes hnormal.1 hnormal.2, isAbsent_canonicalNode, ?_⟩
  · intro _
    exact complete_canonicalNode takes hcomplete.1 fun x hx =>
      hcomplete.2 x hx (hpresent x hx)

/-- What a visit makes of a tree is normalized. -/
theorem of_visit {metadata : Metadata} {w w' : Work} (known : e.labelsBelow w.nextLabel = true)
    (h : (Normalization.normalizer metadata).Visit e w r w') : Normalized e r := by
  refine Normalization.normalizer_induction ?_ ?_ ?_ known h
  · exact ⟨by simp [Expr.Normal, Expr.nodes], rfl, by simp [Expr.isAbsent]⟩
  · intro e cs w r w' hk hm hshaped _ hfaithful hcs hrequired hrefit
    obtain ⟨l, rfl⟩ := Expr.exists_rebuild_of_refit hk hfaithful hrefit
    exact rebuild hcs hk hm hshaped hrequired
  · intro e cs w r w' _ _ hcs hrequired hsettled
    exact of_settled hcs hrequired hsettled

end Normalized

namespace Transformer

variable {f : Transformer}

/-- A transformer that leaves each node of a complete tree as it is hands the tree back. -/
theorem accept_eq_pure (henter : ∀ k, f.enter k = pure ()) {e : Expr}
    (hcomplete : e.complete = true)
    (hconclude : ∀ n ∈ e.nodes, f.conclude n n.children = pure n) : f.accept e = pure e := by
  induction e using Expr.children_induction with
  | step e ih =>
    obtain ⟨hk, -, hrequired, hchildren⟩ := (Expr.complete_iff_children e).mp hcomplete
    obtain ⟨k, hk⟩ := Option.isSome_iff_exists.mp hk
    have hvisits : f.visits e = e.children.map pure := by
      rw [visits_eq_map_apply f hrequired]
      refine List.map_congr_left ?_
      intro c hc
      refine apply_eq_pure (fun habsent => ih c hc (hchildren c hc habsent) ?_)
      intro n hn
      exact hconclude n (Expr.mem_nodes_of_mem_children hc hn)
    have hroot := hconclude e (Expr.self_mem_nodes (Expr.isAbsent_of_kind? hk))
    rw [accept_eq_conclude f hk, henter, hvisits, Transform.inOrder_pure, pure_bind, pure_bind,
      hroot]

end Transformer

/-- Every call in a complete tree goes to a method. -/
theorem Expr.callsMethod_of_complete {e : Expr} (h : e.complete = true) :
    ∀ n ∈ e.nodes, n.callsMethod = true := by
  induction e using Expr.children_induction with
  | step e ih =>
    obtain ⟨-, hm, -, hchildren⟩ := (complete_iff_children e).mp h
    intro n hn
    rcases (mem_nodes_iff n e).mp hn with ⟨c, hc, hn⟩ | ⟨-, rfl⟩
    · have habsent : c.isAbsent = false := by
        cases c with
        | absent => simp [nodes] at hn
        | _ => rfl
      exact ih c hc (hchildren c hc habsent) n hn
    · exact hm

/-- A complete tree without accessor calls is left alone, and nothing is done. -/
theorem Normalization.accept_of_normal {metadata : Metadata} {e : Expr}
    (hcomplete : e.complete = true) (hnormal : e.Normal) :
    (normalizer metadata).accept e = pure e := by
  refine Transformer.accept_eq_pure (fun _ => rfl) hcomplete ?_
  intro n hn
  have hm := Expr.callsMethod_of_complete hcomplete n hn
  rw [conclude_of_not_shaped rfl hm (hnormal n hn), Expr.refit_children]

/-- The result of normalization, new nodes having labels that the tree has not, is a normal form: it
holds no accessor calls, and to normalize it again, with whatever metadata and at whatever time, is
to hand back the very same tree. No question is asked, no label is taken, and the count of calls
settled is zero. -/
theorem normalize_normalize {metadata : Metadata} {t r : Expr} {w w' : Work}
    (known : t.labelsBelow w.nextLabel = true) (h : normalize metadata t w = .ok r w') :
    r.Normal ∧ ∀ (other : Metadata) (v : Work),
      normalize other r v = .ok r { v with settled := 0, log := v.log ++ [.normalized 0] } := by
  obtain ⟨w₁, haccept, -⟩ := normalize_eq_ok_iff.mp h
  obtain ⟨hpresent, hvisit⟩ := Transformer.visit_of_accept haccept
  have hr := Normalized.of_visit (w := { w with settled := 0 }) known hvisit
  have hcomplete := hr.complete (hr.isAbsent.trans hpresent)
  refine ⟨hr.normal, ?_⟩
  intro other v
  rw [normalize_eq_ok_iff, Normalization.accept_of_normal hcomplete hr.normal]
  exact ⟨{ v with settled := 0 }, rfl, rfl⟩

/-- The copy is normalized, and a second run hands it back over metadata that answers nothing. -/
theorem normalize_normalize_copyFirst :
    Grid.copyFirst.labelsBelow 6 = true ∧
      (∃ w', normalize Grid.provider Grid.copyFirst (Work.start 6) = .ok Grid.copiedFirst w') ∧
      Grid.copiedFirst.Normal ∧
      normalize Provider.unsupported Grid.copiedFirst (Work.start 0) =
        .ok Grid.copiedFirst { Work.start 0 with log := [.normalized 0] } := by
  obtain ⟨normal, again⟩ := normalize_normalize (by decide) Grid.normalize_copyFirst
  exact ⟨by decide, ⟨_, Grid.normalize_copyFirst⟩, normal,
    again Provider.unsupported (Work.start 0)⟩

end CanonicalAccess
