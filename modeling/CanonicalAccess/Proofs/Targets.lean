import CanonicalAccess.Proofs.NormalForm
import CanonicalAccess.Proofs.Soundness

/-!
# Targets of assignments

What is assigned to is a place: a property or an indexer of something, or a parameter. Before
normalization a place may also be spelled as the call that reads it, and such a call gives way to
the access it stands for. So normalization leaves every assignment with a place for its target,
those that were there no less than those that it makes. And it mends nothing: where a target was
neither a place nor a call that reads one, the result has a target that is no place
(`targetsAre_normalize`).
-/

set_option autoImplicit false

namespace CanonicalAccess

namespace Expr

/-- What can be assigned to: an access, or a parameter. -/
def isPlace : Expr → Bool
  | member .. | index .. | parameter .. => true
  | _ => false

/-- A call to a special method whose name carries the marker of a getter. -/
def isRead : Expr → Bool
  | call _ _ (.method m) _ => m.special && Role.getter.marker.toList.isPrefixOf m.name.toList
  | _ => false

/-- A node is no assignment, or one to a target that is allowed. -/
def targetIs (allowed : Expr → Bool) : Expr → Bool
  | assign _ target _ => allowed target
  | _ => true

/-- Every assignment in a tree, parameter lists apart, has a target that is allowed. -/
def TargetsAre (allowed : Expr → Bool) (e : Expr) : Prop :=
  ∀ n ∈ e.nodes, n.targetIs allowed = true

instance (allowed : Expr → Bool) (e : Expr) : Decidable (e.TargetsAre allowed) :=
  inferInstanceAs (Decidable (∀ n ∈ e.nodes, n.targetIs allowed = true))

/-- The targets of a tree are as allowed if those of its children are and its own is. -/
theorem targetsAre_iff_children {allowed : Expr → Bool} {e : Expr} :
    e.TargetsAre allowed ↔
      (∀ c ∈ e.children, c.TargetsAre allowed) ∧ e.targetIs allowed = true := by
  constructor
  · intro h
    refine ⟨fun c hc n hn => h n (mem_nodes_of_mem_children hc hn), ?_⟩
    cases habsent : e.isAbsent with
    | true =>
      rw [eq_absent_of_isAbsent habsent]
      rfl
    | false => exact h e (self_mem_nodes habsent)
  · rintro ⟨hchildren, hroot⟩ n hn
    rcases (mem_nodes_iff n e).mp hn with ⟨c, hc, hn⟩ | ⟨-, rfl⟩
    · exact hchildren c hc n hn
    · exact hroot

/-- Below a node that is allowed to assign as it does, the children decide. -/
theorem targetsAre_iff_of_targetIs {allowed : Expr → Bool} {e : Expr}
    (h : e.targetIs allowed = true) :
    e.TargetsAre allowed ↔ ∀ c ∈ e.children, c.TargetsAre allowed :=
  targetsAre_iff_children.trans (and_iff_left h)

/-! ### Calls that read -/

/-- A call reads exactly if its method is named like a getter. -/
theorem isRead_call_iff {l : Label} {r : Expr} {m : Method} {as : List Expr} :
    (call l r (.method m) as).isRead = true ↔ ∃ name, m.claim? = some (.getter, name) := by
  unfold isRead Method.claim? afterMarker?
  by_cases hspecial : m.special = true
  · by_cases hmarker : Role.getter.marker.toList.isPrefixOf m.name.toList = true
    · simp [hspecial, hmarker]
    · simp [hspecial, hmarker]
  · simp [hspecial]

/-- An accessor call reads exactly if its method is called as a getter. -/
theorem isRead_of_access? {l : Label} {r : Expr} {m : Method} {as : List Expr} {a : Access}
    {name : String} (shape : m.access? as.length = some (a, name)) :
    (call l r (.method m) as).isRead = true ↔ a.role = .getter := by
  obtain ⟨hclaim, -⟩ := Method.access?_eq_some_iff.mp shape
  simp [isRead_call_iff, hclaim]

/-- A call that reads is an accessor call, whatever its arguments. -/
theorem isRead_of_unshaped {e : Expr} (h : e.isAccessorShaped = false) : e.isRead = false := by
  cases e with
  | call l r m as =>
    cases m with
    | absent | property p => rfl
    | method m =>
      rw [Bool.eq_false_iff, ne_eq, isRead_call_iff]
      rintro ⟨name, hclaim⟩
      rw [isAccessorShaped_call, Method.access?, hclaim] at h
      cases as <;> cases h
  | _ => rfl

end Expr

/-! ### Canonical nodes -/

namespace Normalization

open CanonicalAccess.Expr

variable {l : Label} {a : Access} {p : Property} {receiver : Expr} {arguments : List Expr}

/-- The canonical node of a read is a place, and that of a write is none. -/
theorem isPlace_canonicalNode :
    (canonicalNode l a p receiver arguments).isPlace = true ↔ a.role = .getter := by
  cases a <;> simp [canonicalNode, isPlace, Access.role]

/-- In a canonical node the targets are places if they are in its receiver and its arguments, for
the assignment that it may be goes to an access. -/
theorem targetsAre_canonicalNode (takes : a.Takes arguments.length) :
    (canonicalNode l a p receiver arguments).TargetsAre isPlace ↔
      ∀ c ∈ receiver :: arguments, c.TargetsAre isPlace := by
  have hmember : (member l receiver (.property p)).TargetsAre isPlace ↔
      receiver.TargetsAre isPlace := by
    rw [targetsAre_iff_of_targetIs rfl, children_member, List.forall_mem_singleton]
  have hindex : ∀ indices, (index l receiver (.property p) indices).TargetsAre isPlace ↔
      ∀ c ∈ receiver :: indices, c.TargetsAre isPlace :=
    fun indices => targetsAre_iff_of_targetIs rfl
  have hassign : ∀ {l t v}, t.isPlace = true → ((assign l t v).TargetsAre isPlace ↔
      t.TargetsAre isPlace ∧ v.TargetsAre isPlace) := by
    intro l t v ht
    have hnode : (assign l t v).targetIs isPlace = true := ht
    rw [targetsAre_iff_of_targetIs hnode, children_assign, List.forall_mem_cons,
      List.forall_mem_singleton]
  cases a with
  | readProperty =>
    obtain rfl := List.length_eq_zero_iff.mp takes
    rw [canonicalNode, hmember, List.forall_mem_singleton]
  | readIndexer => exact hindex arguments
  | writeProperty =>
    obtain ⟨value, rfl⟩ := List.length_eq_one_iff.mp takes
    rw [canonicalNode, hassign rfl, hmember, List.forall_mem_cons, List.forall_mem_singleton]
    rfl
  | writeIndexer =>
    -- The arguments are the indices, below the target, and the value beside it.
    have hsplit := dropLast_append_getLastD (d := Expr.absent) (takes.ne_nil rfl)
    rw [canonicalNode, hassign rfl, hindex]
    conv_rhs => rw [← hsplit, ← List.cons_append, List.forall_mem_append, List.forall_mem_singleton]

end Normalization

/-! ### What becomes of targets -/

namespace Expr

/-- What takes the place of an expression: a place exactly if the expression was one or reads one,
with places for targets exactly if those of the expression were that much. -/
structure Assigns (e r : Expr) : Prop where
  place : r.isPlace = (e.isPlace || e.isRead)
  targets : r.TargetsAre isPlace ↔ e.TargetsAre fun t => t.isPlace || t.isRead

namespace Assigns

variable {e : Expr} {es cs : List Expr}

/-- The targets of some trees are places after normalization exactly if they were places or reads
before. -/
theorem forall_targets (h : List.Forall₂ Assigns es cs) :
    (∀ c ∈ cs, c.TargetsAre isPlace) ↔ ∀ e ∈ es, e.TargetsAre fun t => t.isPlace || t.isRead := by
  induction h with
  | nil => simp
  | cons head _ ih => rw [List.forall_mem_cons, List.forall_mem_cons, head.targets, ih]

/-- A node that is no accessor call goes on to be a place or none. If it is an assignment, its
target is what the target became. -/
theorem rebuild (l : Label) (unshaped : e.isAccessorShaped = false)
    (hcs : List.Forall₂ Assigns e.children cs) : Assigns e (e.rebuild l cs) := by
  have hlen := hcs.length_eq.symm
  have hplace : (e.rebuild l cs).isPlace = e.isPlace := by
    induction e, cs, hlen using children_cases with
    | _ => rfl
  have htarget : (e.rebuild l cs).targetIs isPlace =
      e.targetIs fun t => t.isPlace || t.isRead := by
    induction e, cs, hlen using children_cases with
    | assign l₀ t v t' v' => exact (List.forall₂_cons.mp hcs).1.place
    | _ => rfl
  constructor
  · rw [hplace, isRead_of_unshaped unshaped, Bool.or_false]
  · rw [targetsAre_iff_children, targetsAre_iff_children, children_rebuild hlen, htarget,
      forall_targets hcs]

/-- An accessor call, which is no place, gives way to one exactly if it reads. -/
theorem settled {l l' : Label} {receiver receiver' : Expr} {m : Method}
    {arguments arguments' : List Expr} {a : Access} {name : String} {p : Property}
    (shape : m.access? arguments.length = some (a, name))
    (hcs : List.Forall₂ Assigns (receiver :: arguments) (receiver' :: arguments')) :
    Assigns (call l receiver (.method m) arguments)
      (Normalization.canonicalNode l' a p receiver' arguments') := by
  have takes := Method.takes_of_access? shape
  rw [(List.forall₂_cons.mp hcs).2.length_eq] at takes
  constructor
  · have hnone : (call l receiver (.method m) arguments).isPlace = false := rfl
    rw [hnone, Bool.false_or, Bool.eq_iff_iff, Normalization.isPlace_canonicalNode,
      isRead_of_access? shape]
  · rw [Normalization.targetsAre_canonicalNode takes, forall_targets hcs,
      targetsAre_iff_of_targetIs rfl, children_call]

/-- What a visit makes of a tree has the targets that go with it. -/
theorem of_visit {metadata : Metadata} {r : Expr} {w w' : Work}
    (known : e.labelsBelow w.nextLabel = true)
    (h : (Normalization.normalizer metadata).Visit e w r w') : Assigns e r := by
  refine Normalization.normalizer_induction ?_ ?_ ?_ known h
  · exact ⟨rfl, by simp [TargetsAre, nodes]⟩
  · intro e cs w r w' hk _ hshaped _ hfaithful hcs _ hrefit
    obtain ⟨l, rfl⟩ := exists_rebuild_of_refit hk hfaithful hrefit
    exact .rebuild l hshaped hcs
  · intro e cs w r w' _ _ hcs _ hsettled
    obtain ⟨shape, -, -, -⟩ := hsettled
    exact .settled shape hcs

end Assigns

end Expr

/-- If every assignment in a tree goes to a place or to a call that reads one, then every assignment
in the normalized tree goes to a place; and only then. -/
theorem targetsAre_normalize {metadata : Metadata} {t r : Expr} {w w' : Work}
    (known : t.labelsBelow w.nextLabel = true) (h : normalize metadata t w = .ok r w') :
    r.TargetsAre Expr.isPlace ↔ t.TargetsAre fun target => target.isPlace || target.isRead := by
  obtain ⟨w₁, haccept, -⟩ := normalize_eq_ok_iff.mp h
  obtain ⟨-, hvisit⟩ := Transformer.visit_of_accept haccept
  exact (Expr.Assigns.of_visit (w := { w with settled := 0 }) known hvisit).targets

namespace Grid

/-- Writes to the cell of a row, which it names by the call that reads it, what it has written to
the first cell through a call of the setter. -/
def overwrite : Expr :=
  .assign 7 (.call 6 grid (.method getter) [row]) (.call 4 grid (.method setter) [first, readFirst])

/-- What that is normalized to. -/
def overwritten : Expr :=
  .assign 12 (.index 8 grid (.property cells) [row])
    (.assign 11 (.index 10 grid (.property cells) [first])
      (.index 9 grid (.property cells) [first]))

/-- An assignment to a read is normalized to one to the place. -/
theorem normalize_overwrite :
    ∃ w', normalize provider overwrite (Work.start 8) = .ok overwritten w' := ⟨_, rfl⟩

end Grid

/-- Of the two assignments of the result, one was there and had a call for its target, and the
other is new. Both go to places. -/
theorem targetsAre_normalize_overwrite :
    Grid.overwrite.labelsBelow 8 = true ∧
      (∃ w', normalize Grid.provider Grid.overwrite (Work.start 8) = .ok Grid.overwritten w') ∧
      (Grid.overwrite.TargetsAre fun target => target.isPlace || target.isRead) ∧
      Grid.overwritten.TargetsAre Expr.isPlace ∧ ¬ Grid.overwrite.TargetsAre Expr.isPlace := by
  have known : Grid.overwrite.labelsBelow (Work.start 8).nextLabel = true := by decide
  have targets : Grid.overwrite.TargetsAre fun target => target.isPlace || target.isRead := by
    decide
  obtain ⟨w', hrun⟩ := Grid.normalize_overwrite
  exact ⟨known, ⟨w', hrun⟩, targets, (targetsAre_normalize known hrun).mpr targets, by decide⟩

end CanonicalAccess
