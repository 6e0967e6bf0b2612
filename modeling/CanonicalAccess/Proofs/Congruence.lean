import CanonicalAccess.Proofs.Comparison
import CanonicalAccess.Proofs.Lockstep
import CanonicalAccess.Proofs.Unlabelled
import CanonicalAccess.Violation

/-!
# Equal trees are normalized alike

Equality does not see which node an expression is, nor which of several equal payloads it carries,
while the walk of a normalizer keeps asking whether a node is the one it was. None of this shows in
what comes out: equal trees are normalized to equal trees, as many calls being settled, or the same
violation is reported of equal calls (`normalize_congr`).
-/

set_option autoImplicit false

namespace CanonicalAccess

namespace Expr

variable {payload : Value → Value → Bool}

/-- The heads of two nodes are alike. -/
def HeadsAlike (payload : Value → Value → Bool) (e e' : Expr) : Prop :=
  alike payload e.head e'.head = true

/-- Expressions are alike if their heads and their children are. -/
theorem alike_iff_children {a b : Expr} : alike payload a b = true ↔
    HeadsAlike payload a b ∧
      List.Forall₂ (fun a b => alike payload a b = true) a.children b.children := by
  unfold HeadsAlike
  cases a <;> cases b <;>
    simp [alike, head, children, operands, items, alikeAll_iff_forall₂, and_assoc, and_left_comm,
      and_comm]

/-- Expressions are alike exactly if they have one shape and the heads of their nodes are alike. -/
theorem parallel_iff_alike {a b : Expr} :
    Parallel (HeadsAlike payload) a b ↔ alike payload a b = true := by
  induction a using children_induction generalizing b with
  | step a ih =>
    rw [alike_iff_children]
    have hchildren : List.Forall₂ (Parallel (HeadsAlike payload)) a.children b.children ↔
        List.Forall₂ (fun a b => alike payload a b = true) a.children b.children := by
      constructor
      · exact forall₂_imp_of_mem fun c hc {c'} => (ih c hc (b := c')).mp
      · exact forall₂_imp_of_mem fun c hc {c'} => (ih c hc (b := c')).mpr
    rw [← hchildren]
    exact ⟨fun h => ⟨h.head, h.children⟩, fun h => .intro h.1 h.2⟩

/-- To be alike is a correspondence of nodes, if a payload matches itself. -/
theorem correspondence_headsAlike (h : ∀ v, payload v v = true) :
    Correspondence (HeadsAlike payload) where
  sameSort := by
    intro e e' hheads
    obtain ⟨hframe, -⟩ := alike_iff.mp hheads
    cases e <;> cases e' <;> cases hframe <;> exact ⟨rfl, rfl, rfl⟩
  rebuild := by
    intro e e' cs cs' l l' hlen hlen' hheads
    unfold HeadsAlike at hheads ⊢
    rwa [head_rebuild hlen, head_rebuild hlen']
  canonical := by
    intro e e' _ hhead
    unfold HeadsAlike
    rw [hhead]
    exact alike_refl h _

end Expr

/-- Violations that report the same of equal nodes. -/
structure Violation.Agrees (v v' : Violation) : Prop where
  message : v.message = v'.message
  code : v.code = v'.code
  help : v.help = v'.help
  note : v.note = v'.note
  method : v.method = v'.method
  node : v.node.equal v'.node = true

/-- Refusals of equal calls of one method for one reason are reported alike. -/
theorem Refusal.violation_agrees {call call' : Expr} {m : Method} {reason : Reason}
    (h : call.equal call' = true) :
    Violation.Agrees (Refusal.violation ⟨call, m, reason⟩) (Refusal.violation ⟨call', m, reason⟩) :=
  ⟨rfl, rfl, rfl, rfl, rfl, h⟩

/-- Normalizing equal trees, of which one and so the other is complete, ends in equal trees with
equal counts, or with violations that agree, or with one and the same other fault. New nodes have
labels that the trees have not, and the metadata answers both runs alike. -/
theorem normalize_congr {metadata : Metadata} {t t' : Expr} {w w' : Work}
    (complete : t.complete = true) (equal : t.equal t' = true)
    (known : t.labelsBelow w.nextLabel = true) (known' : t'.labelsBelow w'.nextLabel = true)
    (alike : metadata.GoesOnAlike w.asked w'.asked) :
    (∃ r r' u u', normalize metadata t w = .ok r u ∧ normalize metadata t' w' = .ok r' u' ∧
      r.equal r' = true ∧ u.settled = u'.settled) ∨
    (∃ refusal refusal' u u', normalize metadata t w = .error (.refused refusal) u ∧
      normalize metadata t' w' = .error (.refused refusal') u' ∧
      refusal.violation.Agrees refusal'.violation) ∨
    ∃ fault u u', normalize metadata t w = .error fault u ∧
      normalize metadata t' w' = .error fault u' ∧ ∀ refusal, fault ≠ .refused refusal := by
  have corresponds := Expr.correspondence_headsAlike Value.same_refl
  have hparallel : Expr.Parallel (Expr.HeadsAlike Value.same) t t' :=
    Expr.parallel_iff_alike.mpr equal
  have hends := Normalization.endsAlike_normalize corresponds hparallel complete known known' alike
  generalize normalize metadata t w = result at hends ⊢
  generalize normalize metadata t' w' = result' at hends ⊢
  cases hends with
  | @ok r r' u u' hcount hr =>
    exact .inl ⟨r, r', u, u', rfl, rfl, Expr.parallel_iff_alike.mp hr, hcount⟩
  | @error fault _ u u' hfault =>
    cases hfault with
    | refused m reason hcall =>
      exact .inr (.inl ⟨_, _, u, u', rfl, rfl,
        Refusal.violation_agrees (Expr.parallel_iff_alike.mp hcall)⟩)
    | same =>
      -- The same fault may be a refusal still, of one and the same call.
      by_cases hrefused : ∃ refusal, fault = .refused refusal
      · obtain ⟨refusal, rfl⟩ := hrefused
        have hagrees : refusal.violation.Agrees refusal.violation :=
          ⟨rfl, rfl, rfl, rfl, rfl, Expr.equal_refl _⟩
        exact .inr (.inl ⟨refusal, refusal, u, u', rfl, rfl, hagrees⟩)
      · exact .inr (.inr ⟨fault, u, u', rfl, rfl, not_exists.mp hrefused⟩)

namespace Grid

/-- The function that copies the first cell, of other nodes and with a truth value for the zero. -/
def copyFirstAgain : Expr :=
  .lambda 15 [.parameter 11 "row" .i32]
    (.call 14 (.parameter 10 "grid" type) (.method setter)
      [.parameter 11 "row" .i32,
        .call 13 (.parameter 10 "grid" type) (.method getter) [.constant 12 (.bool false) .i32]])

end Grid

/-- Both spellings of the function are normalized with two calls settled where the grid's cells are
found, and where nothing is found the same is reported of both. -/
theorem normalize_congr_copyFirstAgain :
    Grid.copyFirst.complete = true ∧ Grid.copyFirst.equal Grid.copyFirstAgain = true ∧
      Grid.copyFirst.labelsBelow 6 = true ∧ Grid.copyFirstAgain.labelsBelow 16 = true ∧
      (∃ r' u', normalize Grid.provider Grid.copyFirstAgain (Work.start 16) = .ok r' u' ∧
        Grid.copiedFirst.equal r' = true ∧ u'.settled = 2) ∧
      ∃ refusal refusal' u u',
        normalize (Provider.fixed .absent .absent) Grid.copyFirst (Work.start 6) =
          .error (.refused refusal) u ∧
        normalize (Provider.fixed .absent .absent) Grid.copyFirstAgain (Work.start 16) =
          .error (.refused refusal') u' ∧
        refusal.violation.Agrees refusal'.violation := by
  have equal : Grid.copyFirst.equal Grid.copyFirstAgain = true := by decide
  have known : Grid.copyFirst.labelsBelow (Work.start 6).nextLabel = true := by decide
  have known' : Grid.copyFirstAgain.labelsBelow (Work.start 16).nextLabel = true := by decide
  refine ⟨by decide, equal, known, known', ?_, ?_⟩
  · have hrun := Grid.normalize_copyFirst
    rcases normalize_congr (by decide) equal known known'
      (Metadata.GoesOnAlike.provider Grid.provider) with
      ⟨r, r', u, u', hok, hok', hequal, hcount⟩ | ⟨_, _, _, _, herror, -⟩ | ⟨_, _, _, herror, -⟩
    · rw [hrun] at hok
      cases hok
      exact ⟨r', u', hok', hequal, hcount.symm⟩
    · rw [hrun] at herror
      cases herror
    · rw [hrun] at herror
      cases herror
  · have hrun : normalize (Provider.fixed .absent .absent) Grid.copyFirst (Work.start 6) =
        .error (.refused ⟨Grid.readFirst, Grid.getter,
          .unanswered (.indexer Grid.type "Item" .f64 [.i32])⟩)
          { Work.start 6 with asked := [.indexer Grid.type "Item" .f64 [.i32]] } := rfl
    rcases normalize_congr (by decide) equal known known'
      (Metadata.GoesOnAlike.provider (Provider.fixed .absent .absent)) with
      ⟨_, _, _, _, hok, -⟩ | hrefused | ⟨_, _, _, herror, -, hother⟩
    · rw [hrun] at hok
      cases hok
    · exact hrefused
    · rw [hrun] at herror
      cases herror
      exact absurd rfl (hother _)

end CanonicalAccess
