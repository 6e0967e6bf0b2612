import CanonicalAccess.Pass.Basic
import CanonicalAccess.Proofs.Ordering
import Mathlib.Data.List.Induction

/-!
# The run of a manager

A manager orders the passes registered with it, or reports why they have no order: the first
registered pass that requires an unregistered one, with the first such requirement, or else a cycle
of requirements. In the first two cases nothing is run and nothing recorded. In the order every
registered pass stands once, behind all that it requires, and the passes are run in that order, each
on the result of the one before, up to the first that fails (`order_and_run`).

A pass may be registered again, and may require another more than once, or itself. What it requires
is taken to be the same at registration and when the passes are run.
-/

set_option autoImplicit false

namespace CanonicalAccess

open Schedule (Job Requires Chain Cyclic Closed)

variable {H : Host}

/-- A pass as a job to be ordered. -/
def Pass.job (p : Pass H) : Job PassId := ⟨p.id, p.requires⟩

/-! ### Registration -/

namespace Manager

/-- A manager with which some passes have been registered, one after the other. -/
def registerAll (passes : List (Pass H)) : Manager := passes.foldl register []

variable {m : Manager} {passes : List (Pass H)} {p : Pass H} {a : PassId}

/-- Of some passes the last one is registered last. -/
theorem registerAll_concat (passes : List (Pass H)) (p : Pass H) :
    registerAll (passes ++ [p]) = (registerAll passes).register p := by
  rw [registerAll, List.foldl_append]
  rfl

/-- A pass is added behind the others unless it is registered already. -/
theorem register_eq (m : Manager) (p : Pass H) :
    m.register p = if p.id ∈ m.map Job.id then m else m ++ [p.job] := by
  have htest : (m.any fun j => decide (j.id = p.id)) = true ↔ p.id ∈ m.map Job.id := by simp
  by_cases hmem : p.id ∈ m.map Job.id
  · rw [if_pos hmem, register, Schedule.register, if_pos (htest.mpr hmem)]
  · rw [if_neg hmem, register, Schedule.register, if_neg (mt htest.mp hmem)]
    rfl

/-- No pass is there twice. -/
theorem nodup_registerAll (passes : List (Pass H)) : ((registerAll passes).map Job.id).Nodup := by
  induction passes using List.reverseRecOn with
  | nil => exact List.nodup_nil
  | append_singleton passes p ih =>
    rw [registerAll_concat, register_eq]
    split
    · exact ih
    · rename_i hmem
      rw [List.map_append, List.map_singleton, ← List.concat_eq_append]
      exact ih.concat hmem

/-- The passes that are there are those that were registered. -/
theorem mem_ids_registerAll : a ∈ (registerAll passes).map Job.id ↔ a ∈ passes.map Pass.id := by
  induction passes using List.reverseRecOn with
  | nil => simp [registerAll]
  | append_singleton passes p ih =>
    rw [registerAll_concat, register_eq, List.map_append, List.mem_append, ← ih]
    split
    · rename_i hmem
      rw [iff_self_or, List.map_singleton, List.mem_singleton]
      rintro rfl
      exact hmem
    · rw [List.map_append, List.mem_append]
      rfl

/-- If passes that are registered more than once are the same each time, what they require is there
as it was registered. -/
theorem mem_registerAll (same : ∀ p ∈ passes, ∀ q ∈ passes, p.id = q.id → p = q) {j : Job PassId} :
    j ∈ registerAll passes ↔ j ∈ passes.map Pass.job := by
  induction passes using List.reverseRecOn with
  | nil => simp [registerAll]
  | append_singleton passes p ih =>
    have hsame : ∀ p ∈ passes, ∀ q ∈ passes, p.id = q.id → p = q := by
      intro p hp q hq
      exact same p (List.mem_append_left _ hp) q (List.mem_append_left _ hq)
    have ih := ih hsame
    rw [registerAll_concat, register_eq, List.map_append, List.mem_append, ← ih]
    split
    · rename_i hmem
      rw [iff_self_or, List.map_singleton, List.mem_singleton, ih]
      rintro rfl
      obtain ⟨q, hq, hid⟩ := List.mem_map.mp (mem_ids_registerAll.mp hmem)
      rw [← same q (by simp [hq]) p (by simp) hid]
      exact List.mem_map_of_mem hq
    · rw [List.mem_append]
      rfl

/-- A search through the registered passes finds what a search through the registrations does. -/
theorem findSome?_registerAll {β : Type} (f : PassId → Option β) (passes : List (Pass H)) :
    (registerAll passes).findSome? (fun j => f j.id) = passes.findSome? fun p => f p.id := by
  induction passes using List.reverseRecOn with
  | nil => rfl
  | append_singleton passes p ih =>
    rw [registerAll_concat, register_eq, List.findSome?_append, ← ih]
    split
    · rename_i hmem
      -- What would be found at a pass registered again has been found where it is already.
      cases hfirst : (registerAll passes).findSome? fun j => f j.id with
      | some b => rfl
      | none =>
        obtain ⟨j, hj, hid⟩ := List.mem_map.mp hmem
        have hnone := List.findSome?_eq_none_iff.mp hfirst j hj
        rw [hid] at hnone
        simp [hnone]
    · rw [List.findSome?_append]
      rfl

end Manager

/-! ### What is required -/

/-- Everything that some passes require is among them. -/
def RequiresMet (passes : List (Pass H)) : Prop :=
  ∀ p ∈ passes, ∀ r ∈ p.requires, r ∈ passes.map Pass.id

/-- The first of some passes that requires one that is not among them, and the first such
requirement. -/
def FirstUnmet (passes : List (Pass H)) (p : Pass H) (r : PassId) : Prop :=
  ∃ before after front back, passes = before ++ p :: after ∧
    (∀ q ∈ before, ∀ r' ∈ q.requires, r' ∈ passes.map Pass.id) ∧
    p.requires = front ++ r :: back ∧ (∀ r' ∈ front, r' ∈ passes.map Pass.id) ∧
    r ∉ passes.map Pass.id

section

variable {t : PassTable H} {passes : List (Pass H)} {p : Pass H} {r : PassId}

/-- A pass in a table requires what it says. -/
theorem PassTable.requires_eq (h : t.byId? p.id = some p) : t.requires p.id = p.requires := by
  simp only [requires, h]

/-- A pass in a table has the name that it says. -/
theorem PassTable.name_eq (h : t.byId? p.id = some p) : t.name p.id = p.name := by
  simp only [name, h]

/-- Passes in a table are told apart by their identities. -/
theorem same_of_byId? (unchanged : ∀ p ∈ passes, t.byId? p.id = some p) :
    ∀ p ∈ passes, ∀ q ∈ passes, p.id = q.id → p = q := by
  intro p hp q hq hid
  have hfound := unchanged p hp
  rw [hid, unchanged q hq, Option.some.injEq] at hfound
  exact hfound.symm

/-- The first of some requirements that is not met by some passes. -/
def unmet? (passes : List (Pass H)) (requires : List PassId) : Option PassId :=
  requires.find? fun r => decide (r ∉ passes.map Pass.id)

/-- No requirement is unmet exactly if all of them are among the passes. -/
theorem unmet?_eq_none_iff {requires : List PassId} :
    unmet? passes requires = none ↔ ∀ r ∈ requires, r ∈ passes.map Pass.id := by
  simp only [unmet?, List.find?_eq_none, decide_eq_true_eq, Classical.not_not]

/-- The first unmet requirement is not among the passes, while all in front of it are. -/
theorem unmet?_eq_some_iff {requires : List PassId} :
    unmet? passes requires = some r ↔ ∃ front back, requires = front ++ r :: back ∧
      (∀ r' ∈ front, r' ∈ passes.map Pass.id) ∧ r ∉ passes.map Pass.id := by
  simp only [unmet?, List.find?_eq_some_iff_append, decide_eq_true_eq, Bool.not_eq_true',
    decide_eq_false_iff_not, Classical.not_not]
  constructor
  · rintro ⟨hr, front, back, hsplit, hfront⟩
    exact ⟨front, back, hsplit, hfront, hr⟩
  · rintro ⟨front, back, hsplit, hfront, hr⟩
    exact ⟨hr, front, back, hsplit, hfront⟩

/-- The first registered pass that requires an unregistered one can be looked for among the
registrations. -/
theorem firstUnregistered_registerAll (t : PassTable H) (passes : List (Pass H)) :
    Schedule.firstUnregistered (Manager.registerAll passes) t.requires =
      passes.findSome? fun p => (unmet? passes (t.requires p.id)).map fun r => (p.id, r) := by
  have htest : ∀ r, (!(Manager.registerAll passes).any fun k => decide (k.id = r)) =
      decide (r ∉ passes.map Pass.id) := by
    intro r
    have hmem : r ∈ (Manager.registerAll passes).map Job.id ↔ r ∈ passes.map Pass.id :=
      Manager.mem_ids_registerAll
    rw [Bool.eq_iff_iff, decide_eq_true_eq, ← hmem]
    simp
  unfold Schedule.firstUnregistered
  simp only [htest]
  exact Manager.findSome?_registerAll
    (fun a => (unmet? passes (t.requires a)).map fun r => (a, r)) passes

/-- Where every requirement is met, none is reported. -/
theorem firstUnregistered_eq_none (unchanged : ∀ p ∈ passes, t.byId? p.id = some p)
    (met : RequiresMet passes) :
    Schedule.firstUnregistered (Manager.registerAll passes) t.requires = none := by
  rw [firstUnregistered_registerAll, List.findSome?_eq_none_iff]
  intro p hp
  rw [PassTable.requires_eq (unchanged p hp), unmet?_eq_none_iff.mpr (met p hp), Option.map_none]

/-- Where some requirement is not met, the first such pass is reported with the first of them. -/
theorem exists_firstUnmet (unchanged : ∀ p ∈ passes, t.byId? p.id = some p)
    (unmet : ¬ RequiresMet passes) :
    ∃ p r, FirstUnmet passes p r ∧
      Schedule.firstUnregistered (Manager.registerAll passes) t.requires = some (p.id, r) := by
  have hrequires : ∀ p ∈ passes, (unmet? passes (t.requires p.id)).map (fun r => (p.id, r)) = none ↔
      ∀ r ∈ p.requires, r ∈ passes.map Pass.id := by
    intro p hp
    rw [PassTable.requires_eq (unchanged p hp), Option.map_eq_none_iff, unmet?_eq_none_iff]
  rw [firstUnregistered_registerAll]
  cases hfirst : passes.findSome? fun p =>
      (unmet? passes (t.requires p.id)).map fun r => (p.id, r) with
  | none =>
    rw [List.findSome?_eq_none_iff] at hfirst
    exact absurd (fun p hp => (hrequires p hp).mp (hfirst p hp)) unmet
  | some found =>
    obtain ⟨before, p, after, hsplit, hp, hbefore⟩ := List.findSome?_eq_some_iff.mp hfirst
    have hmem : p ∈ passes := by simp [hsplit]
    obtain ⟨r, hr, rfl⟩ := Option.map_eq_some_iff.mp hp
    rw [PassTable.requires_eq (unchanged p hmem)] at hr
    obtain ⟨front, back, hrequired, hfront, hmissing⟩ := unmet?_eq_some_iff.mp hr
    refine ⟨p, r, ⟨before, after, front, back, hsplit, ?_, hrequired, hfront, hmissing⟩, rfl⟩
    intro q hq
    exact (hrequires q (by simp [hsplit, hq])).mp (hbefore q hq)

/-- Where everything required is registered, so it is for the passes as jobs. -/
theorem closed_registerAll (unchanged : ∀ p ∈ passes, t.byId? p.id = some p)
    (met : RequiresMet passes) : Closed (Manager.registerAll passes) := by
  rintro a b ⟨j, hj, rfl, hb⟩
  obtain ⟨p, hp, rfl⟩ := List.mem_map.mp
    ((Manager.mem_registerAll (same_of_byId? unchanged)).mp hj)
  have hregistered := Manager.mem_ids_registerAll.mpr (met p hp b hb)
  obtain ⟨k, hk, hid⟩ := List.mem_map.mp hregistered
  exact ⟨k, hk, hid⟩

end

/-! ### The run -/

/-- Some passes in an order: the same passes, each once, and each behind all that it requires. -/
structure InOrder (passes ordered : List (Pass H)) : Prop where
  nodup : (ordered.map Pass.id).Nodup
  mem_iff : ∀ p, p ∈ ordered ↔ p ∈ passes
  behind : ∀ before p after, ordered = before ++ p :: after →
    ∀ r ∈ p.requires, r ∈ before.map Pass.id

/-- Passes are found by their identities. -/
theorem exists_map_id {passes : List (Pass H)} {ids : List PassId}
    (h : ∀ a ∈ ids, a ∈ passes.map Pass.id) :
    ∃ ordered : List (Pass H), ordered.map Pass.id = ids ∧ ∀ p ∈ ordered, p ∈ passes := by
  induction ids with
  | nil => exact ⟨[], rfl, by simp⟩
  | cons a ids ih =>
    rw [List.forall_mem_cons] at h
    obtain ⟨p, hp, rfl⟩ := List.mem_map.mp h.1
    obtain ⟨ordered, rfl, hordered⟩ := ih h.2
    exact ⟨p :: ordered, rfl, List.forall_mem_cons.mpr ⟨hp, hordered⟩⟩

/-- The state of a run with an event more on record. -/
def PassWork.record (s : PassWork H) (e : Event) : PassWork H :=
  { s with work := { s.work with log := s.work.log ++ [e] } }

/-- A run of passes one after the other. Each is put on record and run on what the one before made
of the tree, and if that is asked for, the text of its result is put on record. The run ends with
the last pass or with the first fault. -/
inductive InTurn (metadata : Metadata) (dump : Bool) :
    List (Pass H) → Expr → PassWork H → EStateM.Result (PassFault H) (PassWork H) Expr → Prop where
  | done (root : Expr) (s : PassWork H) : InTurn metadata dump [] root s (.ok root s)
  | failed {p : Pass H} {rest : List (Pass H)} {root : Expr} {s s' : PassWork H}
      {fault : PassFault H}
      (run : p.run metadata root (s.record (.running p.name)) = .error fault s') :
      InTurn metadata dump (p :: rest) root s (.error fault s')
  | unprintable {p : Pass H} {rest : List (Pass H)} {root result : Expr} {s s' : PassWork H}
      {fault : Fault}
      (run : p.run metadata root (s.record (.running p.name)) = .ok result s')
      (dumped : dump = true) (text : result.serialize false = .error fault) :
      InTurn metadata dump (p :: rest) root s (.error (.work fault) s')
  | next {p : Pass H} {rest : List (Pass H)} {root result : Expr} {s s' s'' : PassWork H}
      {outcome : EStateM.Result (PassFault H) (PassWork H) Expr}
      (run : p.run metadata root (s.record (.running p.name)) = .ok result s')
      (recorded : if dump then ∃ text, result.serialize false = .ok text ∧
        s'' = s'.record (.after p.name text) else s'' = s')
      (tail : InTurn metadata dump rest result s'' outcome) :
      InTurn metadata dump (p :: rest) root s outcome

section

variable {t : PassTable H} {metadata : Metadata} {dump : Bool} {passes ordered : List (Pass H)}
  {p : Pass H}

/-- One pass of a run. -/
theorem Manager.step_apply (known : t.byId? p.id = some p) (root : Expr) (s : PassWork H) :
    Manager.step t metadata dump root p.id s =
      match p.run metadata root (s.record (.running p.name)) with
      | .error fault s' => .error fault s'
      | .ok result s' =>
        if dump then
          match result.serialize false with
          | .ok text => .ok result (s'.record (.after p.name text))
          | .error fault => .error (.work fault) s'
        else .ok result s' := by
  have hrecord : ∀ e, RunPass.lift (Transform.record e) s = .ok () (s.record e) := fun _ => rfl
  unfold Manager.step
  rw [known]
  simp only [Bind.bind, EStateM.bind, hrecord]
  cases hrun : p.run metadata root (s.record (.running p.name)) with
  | error fault s' => rfl
  | ok result s' =>
    cases dump with
    | false => rfl
    | true =>
      simp only [if_true]
      cases result.serialize false <;> rfl

/-- A run of passes is one of each in turn. -/
theorem inTurn_foldlM (known : ∀ p ∈ ordered, t.byId? p.id = some p) (root : Expr)
    (s : PassWork H) :
    InTurn metadata dump ordered root s
      ((ordered.map Pass.id).foldlM (Manager.step t metadata dump) root s) := by
  induction ordered generalizing root s with
  | nil => exact .done root s
  | cons p rest ih =>
    rw [List.forall_mem_cons] at known
    rw [List.map_cons, List.foldlM_cons]
    simp only [Bind.bind, EStateM.bind, Manager.step_apply known.1]
    cases hrun : p.run metadata root (s.record (.running p.name)) with
    | error fault s' => exact .failed hrun
    | ok result s' =>
      cases dump with
      | false => exact .next hrun rfl (ih known.2 result s')
      | true =>
        simp only [if_true]
        cases htext : result.serialize false with
        | error fault => exact .unprintable hrun rfl htext
        | ok text => exact .next hrun ⟨text, htext, rfl⟩ (ih known.2 result _)

/-- What is placed in order are the registered passes, each once, behind all that it requires. -/
theorem exists_inOrder (unchanged : ∀ p ∈ passes, t.byId? p.id = some p) (met : RequiresMet passes)
    (acyclic : ¬ Cyclic (passes.map Pass.job)) :
    ∃ ordered, InOrder passes ordered ∧
      (Manager.registerAll passes).order t = .ok (ordered.map Pass.id) := by
  have same := same_of_byId? unchanged
  have hjobs : ∀ j, j ∈ Manager.registerAll passes ↔ j ∈ passes.map Pass.job :=
    fun j => Manager.mem_registerAll same
  rw [← Schedule.cyclic_congr hjobs] at acyclic
  obtain ⟨ids, horder, hnodup, hmem, hordered⟩ := Schedule.exists_order
    (Manager.nodup_registerAll passes) (closed_registerAll unchanged met)
    (firstUnregistered_eq_none unchanged met) acyclic
  obtain ⟨ordered, rfl, hpasses⟩ := exists_map_id
    fun a ha => Manager.mem_ids_registerAll.mp ((hmem a).mp ha)
  refine ⟨ordered, ⟨hnodup, ?_, ?_⟩, horder⟩
  · intro p
    refine ⟨hpasses p, ?_⟩
    intro hp
    have hid : p.id ∈ ordered.map Pass.id :=
      (hmem p.id).mpr (Manager.mem_ids_registerAll.mpr (List.mem_map_of_mem hp))
    obtain ⟨q, hq, heq⟩ := List.mem_map.mp hid
    rwa [same q (hpasses q hq) p hp heq] at hq
  · intro before p after hsplit r hr
    have hp : p ∈ passes := hpasses p (by simp [hsplit])
    have hrequires : Requires (Manager.registerAll passes) p.id r :=
      ⟨p.job, (hjobs p.job).mpr (List.mem_map_of_mem hp), rfl, hr⟩
    refine hordered (before.map Pass.id) p.id (after.map Pass.id) ?_ r hrequires
    rw [hsplit, List.map_append, List.map_cons]

/-- Some passes are registered with a manager, which then runs them, all as they were registered. If
one of them requires a pass that is not among them, the first such pass and its first such
requirement are reported. Otherwise a cycle is reported exactly if there is one, and else the passes
are run in an order that holds each of them once, behind all that it requires. Where something is
reported, nothing has been run and nothing recorded. -/
theorem order_and_run (unchanged : ∀ p ∈ passes, t.byId? p.id = some p) :
    (¬ RequiresMet passes → ∃ p r, FirstUnmet passes p r ∧
      (Manager.registerAll passes).order t = .error (.unregistered p.id r) ∧
      (PassFault.ofProblem t (.unregistered p.id r)).message? =
        some (p.name ++ " requires unregistered pass " ++ t.name r)) ∧
    (RequiresMet passes → ((Manager.registerAll passes).order t = .error .circular ↔
      Cyclic (passes.map Pass.job))) ∧
    (RequiresMet passes → ¬ Cyclic (passes.map Pass.job) → ∃ ordered, InOrder passes ordered ∧
      (Manager.registerAll passes).order t = .ok (ordered.map Pass.id) ∧
      ∀ metadata dump root s, InTurn metadata dump ordered root s
        ((Manager.registerAll passes).run t metadata dump root s)) ∧
    ∀ problem, (Manager.registerAll passes).order t = .error problem →
      ∀ metadata dump root s, (Manager.registerAll passes).run t metadata dump root s =
        .error (.ofProblem t problem) s := by
  refine ⟨?_, ?_, ?_, ?_⟩
  · intro unmet
    obtain ⟨p, r, hfirst, hfound⟩ := exists_firstUnmet unchanged unmet
    have hp : p ∈ passes := by
      obtain ⟨before, after, front, back, hsplit, -⟩ := hfirst
      simp [hsplit]
    refine ⟨p, r, hfirst, Schedule.order_of_firstUnregistered hfound, ?_⟩
    rw [PassFault.ofProblem, PassTable.name_eq (unchanged p hp)]
    rfl
  · intro met
    rw [← Schedule.cyclic_congr fun j => Manager.mem_registerAll (same_of_byId? unchanged)]
    exact Schedule.order_eq_circular_iff (Manager.nodup_registerAll passes)
      (closed_registerAll unchanged met) (firstUnregistered_eq_none unchanged met)
  · intro met acyclic
    obtain ⟨ordered, hordered, horder⟩ := exists_inOrder unchanged met acyclic
    refine ⟨ordered, hordered, horder, ?_⟩
    intro metadata dump root s
    have known : ∀ p ∈ ordered, t.byId? p.id = some p :=
      fun p hp => unchanged p ((hordered.mem_iff p).mp hp)
    simp only [Manager.run, horder]
    exact inTurn_foldlM known root s
  · intro problem hproblem metadata dump root s
    simp only [Manager.run, hproblem]
    rfl

end

/-! Two passes behind the normalization, one of which requires the other twice over, and a pass that
requires itself. -/

namespace Stages

/-- These passes raise texts, publish trees and share a count. -/
abbrev host : Host := ⟨String, Expr, Nat⟩

/-- Publishes the tree that it finds, and counts that. -/
def lower : Pass host where
  id := 1
  name := "Lower"
  body? := some fun _ root s =>
    .ok root { s with analyses := s.analyses.publish 1 root, shared := s.shared + 1 }
  requires := [0]

/-- Raises a complaint if nothing has been counted. -/
def check : Pass host where
  id := 2
  name := "Check"
  body? := some fun _ root s =>
    if s.shared = 0 then .error (.raised "nothing was lowered") s else .ok root s
  requires := [1, 0, 1]

def audit : Pass host := ⟨3, "Audit", none, [3]⟩

def table : PassTable host := [audit, check, lower, .normalization]

/-- The check is registered first, and again in the end. -/
def registered : List (Pass host) := [check, lower, .normalization, check]

/-- The table holds the passes as they were registered. -/
theorem unchanged : ∀ p ∈ audit :: registered, table.byId? p.id = some p := by
  simp only [registered, List.forall_mem_cons]
  exact ⟨rfl, rfl, rfl, rfl, rfl, by simp⟩

/-- All that the sample passes require is registered. -/
theorem requiresMet_registered : RequiresMet registered := by
  simp [RequiresMet, registered, check, lower, Pass.normalization]

/-- The sample passes have an order. -/
theorem not_cyclic_registered : ¬ Cyclic (registered.map Pass.job) := by
  have hlower : ∀ p ∈ registered, ∀ r ∈ p.requires, r < p.id := by
    simp [registered, check, lower, Pass.normalization]
  refine Schedule.not_cyclic_of_rank id ?_
  rintro a b ⟨j, hj, rfl, hb⟩
  obtain ⟨p, hp, rfl⟩ := List.mem_map.mp hj
  exact hlower p hp b hb

/-- A pass that requires itself has none. -/
theorem cyclic_audit : Cyclic ([audit].map Pass.job) :=
  ⟨3, 0, .cons ⟨audit.job, by simp, rfl, by simp [audit, Pass.job]⟩ (.nil 3)⟩

end Stages

/-- The passes registered have an order and are run in it, the one that requires itself has none,
and without the normalization one of the passes is reported to lack it. -/
theorem order_and_run_stages :
    (∀ p ∈ Stages.audit :: Stages.registered, Stages.table.byId? p.id = some p) ∧
      (∃ ordered, InOrder Stages.registered ordered ∧
        (Manager.registerAll Stages.registered).order Stages.table =
          .ok (ordered.map Pass.id) ∧
        ∀ metadata dump root s, InTurn metadata dump ordered root s
          ((Manager.registerAll Stages.registered).run Stages.table metadata dump root s)) ∧
      (Manager.registerAll [Stages.audit]).order Stages.table = .error .circular ∧
      ∃ p r, FirstUnmet [Stages.check, Stages.lower] p r ∧
        (Manager.registerAll [Stages.check, Stages.lower]).order Stages.table =
          .error (.unregistered p.id r) := by
  have hknown := List.forall_mem_cons.mp Stages.unchanged
  refine ⟨Stages.unchanged, ?_, ?_, ?_⟩
  · exact (order_and_run hknown.2).2.2.1 Stages.requiresMet_registered
      Stages.not_cyclic_registered
  · have hmet : RequiresMet [Stages.audit] := by simp [RequiresMet, Stages.audit]
    have haudit := order_and_run (List.forall_mem_singleton.mpr hknown.1)
    exact (haudit.2.1 hmet).mpr Stages.cyclic_audit
  · have hunmet : ¬ RequiresMet [Stages.check, Stages.lower] := by
      intro hmet
      have hlower := hmet Stages.lower (by simp) 0 (by simp [Stages.lower])
      simp [Stages.lower, Stages.check] at hlower
    have hboth : ∀ p ∈ [Stages.check, Stages.lower], Stages.table.byId? p.id = some p := by
      intro p hp
      refine hknown.2 p ?_
      simp only [Stages.registered, List.mem_cons, List.not_mem_nil, or_false] at hp ⊢
      exact hp.imp_right .inl
    obtain ⟨p, r, hfirst, horder, -⟩ := (order_and_run hboth).1 hunmet
    exact ⟨p, r, hfirst, horder⟩

/-- The check comes last, although it was registered first. -/
example : (Manager.registerAll Stages.registered).order Stages.table = .ok [0, 1, 2] := by cbv

end CanonicalAccess
