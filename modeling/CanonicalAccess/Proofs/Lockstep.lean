import CanonicalAccess.Proofs.Parallel

/-!
# Normalizing parallel trees

Two runs of the normalizer over parallel trees go in lockstep. They come to the same calls in the
same order, put the same questions, and so end alike: with parallel trees and equal counts, or with
faults that differ in the refused call alone, the two refused calls being parallel
(`endsAlike_normalize`). The metadata may answer by what was asked before, as long as it answers
both runs alike.
-/

set_option autoImplicit false

namespace CanonicalAccess

/-- Metadata to which two histories of questions are the same: whatever is asked from there on is
answered alike. -/
def Metadata.GoesOnAlike (metadata : Metadata) (asked asked' : List Query) : Prop :=
  ∀ later q, metadata.answer (asked ++ later) q = metadata.answer (asked' ++ later) q

namespace Metadata.GoesOnAlike

variable {metadata : Metadata} {asked asked' : List Query}

/-- To a provider all histories are the same. -/
theorem provider (provider : Provider) :
    (provider : Metadata).GoesOnAlike asked asked' := fun _ _ => rfl

/-- The next question is answered alike. -/
theorem answer_eq (h : metadata.GoesOnAlike asked asked') (q : Query) :
    metadata.answer asked q = metadata.answer asked' q := by
  simpa using h [] q

/-- Metadata that goes on alike still does when the same question has been asked on both sides. -/
theorem concat (h : metadata.GoesOnAlike asked asked') (q : Query) :
    metadata.GoesOnAlike (asked ++ [q]) (asked' ++ [q]) := by
  intro later q'
  rw [List.append_assoc, List.append_assoc]
  exact h _ q'

end Metadata.GoesOnAlike

/-! ### Ending alike -/

/-- Two computations end alike: with related answers after related work, or with related faults. -/
inductive EndsAlike {α β : Type} (works : Work → Work → Prop) (answers : α → β → Prop)
    (faults : Fault → Fault → Prop) :
    EStateM.Result Fault Work α → EStateM.Result Fault Work β → Prop where
  | ok {a : α} {b : β} {w w' : Work} (work : works w w') (answer : answers a b) :
      EndsAlike works answers faults (.ok a w) (.ok b w')
  | error {fault fault' : Fault} (w w' : Work) (related : faults fault fault') :
      EndsAlike works answers faults (.error fault w) (.error fault' w')

namespace EndsAlike

variable {α β γ δ : Type} {works works' : Work → Work → Prop} {answers : α → β → Prop}
  {answers' : γ → δ → Prop} {faults : Fault → Fault → Prop} {w w' : Work}

/-- Of two computations that end alike, both succeed or neither does. -/
theorem ok_iff {x : EStateM.Result Fault Work α} {y : EStateM.Result Fault Work β}
    (h : EndsAlike works answers faults x y) :
    (∃ a w, x = .ok a w) ↔ ∃ b w', y = .ok b w' := by
  cases h with
  | ok => exact ⟨fun _ => ⟨_, _, rfl⟩, fun _ => ⟨_, _, rfl⟩⟩
  | error => exact ⟨nofun, nofun⟩

/-- The answers of two computations that end alike are related. -/
theorem answer {a : α} {b : β}
    (h : EndsAlike works answers faults (.ok a w) (.ok b w')) : answers a b := by
  cases h with
  | ok _ answer => exact answer

/-- So do two steps of which the first ones end alike, and the second ones do after them. -/
theorem bind {x : Transform α} {y : Transform β} {f : α → Transform γ} {g : β → Transform δ}
    (h : EndsAlike works answers faults (x w) (y w'))
    (next : ∀ a b v v', x w = .ok a v → y w' = .ok b v' → works v v' → answers a b →
      EndsAlike works' answers' faults (f a v) (g b v')) :
    EndsAlike works' answers' faults ((x >>= f) w) ((y >>= g) w') := by
  simp only [Bind.bind, EStateM.bind]
  cases hx : x w with
  | ok a v =>
    cases hy : y w' with
    | ok b v' =>
      rw [hx, hy] at h
      cases h with
      | ok work answer => exact next a b v v' hx hy work answer
    | error fault v' =>
      rw [hx, hy] at h
      cases h
  | error fault v =>
    cases hy : y w' with
    | ok b v' =>
      rw [hx, hy] at h
      cases h
    | error fault' v' =>
      rw [hx, hy] at h
      cases h with
      | error _ _ related => exact .error v v' related

/-- Computations in order end alike if each of them does from any related work. -/
theorem inOrder {es es' : List Expr} {run : Expr → Transform α} {run' : Expr → Transform β}
    (h : List.Forall₂ (fun e e' => ∀ v v', works v v' →
      EndsAlike works answers faults (run e v) (run' e' v')) es es') (hw : works w w') :
    EndsAlike works (List.Forall₂ answers) faults (Transform.inOrder (es.map run) w)
      (Transform.inOrder (es'.map run') w') := by
  induction h generalizing w w' with
  | nil => exact .ok hw .nil
  | cons head _ ih =>
    rw [List.map_cons, List.map_cons, Transform.inOrder, Transform.inOrder]
    refine (head w w' hw).bind fun a b v v' _ _ hv hab => ?_
    exact (ih hv).bind fun as bs u u' _ _ hu habs => .ok hu (.cons hab habs)

end EndsAlike

/-- Faults are the same but for the call that is refused. -/
inductive Fault.SameBut (calls : Expr → Expr → Prop) : Fault → Fault → Prop where
  | same (fault : Fault) : SameBut calls fault fault
  | refused {call call' : Expr} (m : Method) (reason : Reason) (related : calls call call') :
      SameBut calls (.refused ⟨call, m, reason⟩) (.refused ⟨call', m, reason⟩)

namespace Normalization

/-- The work of two runs of the normalizer that are in step: the metadata goes on alike, the counts
are equal, and the labels below some bound are taken in either. -/
structure InStep (metadata : Metadata) (n n' : Label) (w w' : Work) : Prop where
  answers : metadata.GoesOnAlike w.asked w'.asked
  settled : w.settled = w'.settled
  taken : n ≤ w.nextLabel
  taken' : n' ≤ w'.nextLabel

variable {metadata : Metadata} {heads : Expr → Expr → Prop} {n n' : Label} {w w' : Work}

/-- Runs stay in step when labels are taken on either side. -/
theorem InStep.taking {k k' : Label} (h : InStep metadata n n' w w') (hk : w.nextLabel ≤ k)
    (hk' : w'.nextLabel ≤ k') :
    InStep metadata n n' { w with nextLabel := k } { w' with nextLabel := k' } where
  answers := h.answers
  settled := h.settled
  taken := Nat.le_trans h.taken hk
  taken' := Nat.le_trans h.taken' hk'

/-- Runs stay in step when a call of the same method is settled on both sides. -/
theorem InStep.settledWork (h : InStep metadata n n' w w') (m : Method) (a : Access) (q : Query) :
    InStep metadata n n' (settledWork w m a q) (settledWork w' m a q) where
  answers := h.answers.concat q
  settled := congrArg Nat.succ h.settled
  taken := Nat.le_trans h.taken (Nat.le_add_right _ _)
  taken' := Nat.le_trans h.taken' (Nat.le_add_right _ _)

/-- What is found stands behind both of two calls, or is at fault with both for the same cause. -/
theorem backing_cases (call call' : Expr) (m : Method) (a : Access) (q : Query) (found : Member) :
    (∃ p, backing call m a q found = .ok p ∧ backing call' m a q found = .ok p) ∨
      (backing call m a q found = .error .missing ∧
        backing call' m a q found = .error .missing) ∨
      ∃ reason, backing call m a q found = .error (.refused ⟨call, m, reason⟩) ∧
        backing call' m a q found = .error (.refused ⟨call', m, reason⟩) := by
  cases found with
  | absent => exact .inr (.inr ⟨_, rfl, rfl⟩)
  | method m' => exact .inr (.inl ⟨rfl, rfl⟩)
  | property p =>
    by_cases hp : p.accessor a.role = .method m
    · simp only [backing, hp, if_true]
      exact .inl ⟨p, rfl, rfl⟩
    · simp only [backing, hp, if_false]
      exact .inr (.inr ⟨_, rfl, rfl⟩)

variable (corresponds : Expr.Correspondence heads)

include corresponds

/-- Settling parallel calls ends alike. -/
theorem endsAlike_settle {call call' receiver receiver' : Expr} {m : Method}
    {arguments arguments' : List Expr} {a : Access} {name : String}
    (hcall : Expr.Parallel heads call call') (takes : a.Takes arguments.length)
    (hreceiver : Expr.Parallel heads receiver receiver')
    (harguments : List.Forall₂ (Expr.Parallel heads) arguments arguments')
    (hw : InStep metadata n n' w w') :
    EndsAlike (InStep metadata n n') (Expr.Parallel heads) (Fault.SameBut (Expr.Parallel heads))
      (settle metadata call m a name receiver arguments w)
      (settle metadata call' m a name receiver' arguments' w') := by
  cases hquery : m.query? a name with
  | none =>
    simp only [settle, hquery]
    exact .error w w' (.same .noParameter)
  | some q =>
    rw [settle_apply hquery, settle_apply hquery, ← hw.answers.answer_eq q]
    cases metadata.answer w.asked q with
    | error fault => exact .error _ _ (.same fault)
    | ok found =>
      simp only [bind, Except.bind]
      rcases backing_cases call call' m a q found with ⟨p, h, h'⟩ | ⟨h, h'⟩ | ⟨reason, h, h'⟩
      · rw [h, h']
        exact .ok (hw.settledWork m a q)
          (Expr.Parallel.canonicalNode corresponds takes hreceiver harguments)
      · rw [h, h']
        exact .error _ _ (.same .missing)
      · rw [h, h']
        exact .error _ _ (.refused m reason hcall)

/-- What the normalizer concludes at parallel nodes ends alike. -/
theorem endsAlike_conclude {e e' : Expr} {cs cs' : List Expr} (h : Expr.Parallel heads e e')
    (hk : e.kind?.isSome = true) (hm : e.callsMethod = true)
    (hfaithful : Expr.Faithful e.children cs) (hfaithful' : Expr.Faithful e'.children cs')
    (hcs : List.Forall₂ (Expr.Parallel heads) cs cs') (hw : InStep metadata n n' w w') :
    EndsAlike (InStep metadata n n') (Expr.Parallel heads) (Fault.SameBut (Expr.Parallel heads))
      ((normalizer metadata).conclude e cs w) ((normalizer metadata).conclude e' cs' w') := by
  have hlen := hfaithful.length_eq.symm
  have hlen' := hfaithful'.length_eq.symm
  have hsort := corresponds.sameSort h.head
  have hshaped' := h.isAccessorShaped corresponds
  cases hshaped : e.isAccessorShaped with
  | false =>
    rw [conclude_of_not_shaped hlen hm hshaped,
      conclude_of_not_shaped hlen' (hsort.callsMethod.trans hm) (hshaped'.trans hshaped)]
    obtain ⟨r, k, hrefit, hle, -⟩ := Expr.exists_refit e cs w
    obtain ⟨r', k', hrefit', hle', -⟩ := Expr.exists_refit e' cs' w'
    have hk' : e'.kind?.isSome = true := by rw [hsort.kind?, hk]
    obtain ⟨l, rfl⟩ := Expr.exists_rebuild_of_refit hk hfaithful hrefit
    obtain ⟨l', rfl⟩ := Expr.exists_rebuild_of_refit hk' hfaithful' hrefit'
    rw [hrefit, hrefit']
    exact .ok (hw.taking hle hle') (h.rebuild corresponds l l' hlen hcs)
  | true =>
    obtain ⟨l, r, m, as, r₁, as₁, a, name, rfl, rfl, hlen, shape⟩ :=
      Expr.exists_access hlen hshaped
    obtain ⟨l', r', as', rfl, hlength⟩ := h.exists_call corresponds
    obtain ⟨r₂, as₂, hreceiver, harguments, rfl⟩ := List.forall₂_cons_left_iff.mp hcs
    have hlen₂ : as₂.length = as'.length := Nat.succ.inj hlen'
    have hreuse : Transformer.reuse as as₁ = as₁ :=
      Expr.Faithful.reuse_eq (List.forall₂_cons.mp hfaithful).2
    have hreuse' : Transformer.reuse as' as₂ = as₂ :=
      Expr.Faithful.reuse_eq (List.forall₂_cons.mp hfaithful').2
    rw [conclude_of_access hlen shape, conclude_of_access hlen₂ (hlength ▸ shape), hreuse, hreuse']
    have takes : a.Takes as₁.length := hlen ▸ Method.takes_of_access? shape
    exact endsAlike_settle corresponds h takes hreceiver harguments hw

/-- Visits of parallel trees whose labels are taken end alike. -/
theorem endsAlike_apply {e e' : Expr} (h : Expr.Parallel heads e e')
    (hcomplete : e.isAbsent = false → e.complete = true) (known : e.labelsBelow n = true)
    (known' : e'.labelsBelow n' = true) (hw : InStep metadata n n' w w') :
    EndsAlike (InStep metadata n n') (Expr.Parallel heads) (Fault.SameBut (Expr.Parallel heads))
      ((normalizer metadata).apply e w) ((normalizer metadata).apply e' w') := by
  induction e using Expr.children_induction generalizing e' w w' with
  | step e ih =>
    have hsort := corresponds.sameSort h.head
    by_cases habsent : e.isAbsent = true
    · obtain rfl := Expr.eq_absent_of_isAbsent habsent
      obtain rfl := Expr.eq_absent_of_isAbsent hsort.isAbsent
      exact .ok hw h
    · have hpresent : e.isAbsent = false := by simpa using habsent
      have hpresent' : e'.isAbsent = false := hsort.isAbsent.trans hpresent
      have hfits := h.fits corresponds hcomplete
      obtain ⟨hk, hm, hrequired, hchildren⟩ :=
        (Expr.complete_iff_children e).mp (hcomplete hpresent)
      obtain ⟨-, -, hrequired', -⟩ :=
        (Expr.complete_iff_children e').mp (hfits.complete hpresent')
      obtain ⟨k, hkind⟩ := Option.isSome_iff_exists.mp hk
      have henter : (normalizer metadata).enter k = pure () := rfl
      rw [Transformer.apply_of_present _ hpresent, Transformer.apply_of_present _ hpresent',
        Transformer.accept_eq_conclude _ hkind,
        Transformer.accept_eq_conclude _ (hsort.kind?.trans hkind), henter, pure_bind, pure_bind,
        Transformer.visits_eq_map_apply _ hrequired, Transformer.visits_eq_map_apply _ hrequired']
      -- Each child is visited from whatever work the children before it left in either run.
      have hvisits : List.Forall₂ (fun c c' => ∀ v v', InStep metadata n n' v v' →
          EndsAlike (InStep metadata n n') (Expr.Parallel heads)
            (Fault.SameBut (Expr.Parallel heads)) ((normalizer metadata).apply c v)
            ((normalizer metadata).apply c' v')) e.children e'.children := by
        refine List.forall₂_iff_zip.mpr ⟨h.children.length_eq, ?_⟩
        intro c c' hmem v v' hv
        obtain ⟨hc, hc'⟩ := List.of_mem_zip hmem
        exact ih c hc (List.forall₂_zip h.children hmem) (hchildren c hc)
          (Expr.labelsBelow_of_mem_children known hc)
          (Expr.labelsBelow_of_mem_children known' hc') hv
      refine (EndsAlike.inOrder hvisits hw).bind ?_
      intro cs cs' v v' hrun hrun' hv hcs
      rw [← Transformer.visits_eq_map_apply _ hrequired] at hrun
      rw [← Transformer.visits_eq_map_apply _ hrequired'] at hrun'
      -- What is concluded rests on labels, which tell in either run what gave way to another node.
      have hcareful := careful_normalizer metadata
      have hfaithful := ((Transformer.visits_of_inOrder hrun).1.faithful hcareful fun c hc =>
        Expr.labelsBelow_mono hw.taken c (Expr.labelsBelow_of_mem_children known hc)).1
      have hfaithful' := ((Transformer.visits_of_inOrder hrun').1.faithful hcareful fun c hc =>
        Expr.labelsBelow_mono hw.taken' c (Expr.labelsBelow_of_mem_children known' hc)).1
      exact endsAlike_conclude corresponds h hk hm hfaithful hfaithful' hcs hv

/-- Normalizing parallel trees, of which one and so the other is complete, ends alike: in parallel
trees and equal counts, or with faults that are the same but for a refused call. -/
theorem endsAlike_normalize {t t' : Expr} (h : Expr.Parallel heads t t')
    (complete : t.complete = true) (known : t.labelsBelow w.nextLabel = true)
    (known' : t'.labelsBelow w'.nextLabel = true)
    (alike : metadata.GoesOnAlike w.asked w'.asked) :
    EndsAlike (fun u u' => u.settled = u'.settled) (Expr.Parallel heads)
      (Fault.SameBut (Expr.Parallel heads)) (normalize metadata t w) (normalize metadata t' w') := by
  have hpresent := Expr.isAbsent_of_complete complete
  have hpresent' := (corresponds.sameSort h.head).isAbsent.trans hpresent
  have hstart : InStep metadata w.nextLabel w'.nextLabel { w with settled := 0 }
      { w' with settled := 0 } := ⟨alike, rfl, Nat.le_refl _, Nat.le_refl _⟩
  have hwalk := endsAlike_apply corresponds h (fun _ => complete) known known' hstart
  rw [Transformer.apply_of_present _ hpresent, Transformer.apply_of_present _ hpresent'] at hwalk
  rw [normalize_apply, normalize_apply]
  exact hwalk.bind fun r r' v v' _ _ hv hr => .ok hv.settled hr

end Normalization

end CanonicalAccess
