import CanonicalAccess.Proofs.PassOrder
import Mathlib.Data.List.Forall2
import Mathlib.Data.Nat.Find

/-!
# Layers of an order

The depth of a job is the length of the longest chain of requirements below it. Jobs are placed
layer by layer: the queue holds jobs of one depth, with jobs that are one deeper behind them, since
the job that frees another is the deepest of those that the other requires (`Layered`). So no job
stands before one of a lower depth, and the jobs that require nothing stand at the front, as they
were registered.

What a job requires is looked at for two things only, whether it has a job and how many different
ones it has. So the order is the same where jobs require the same in another order or more than once
(`drain_eq`).
-/

set_option autoImplicit false

namespace CanonicalAccess

namespace Schedule

variable {α : Type} {jobs : List (Job α)} {depth : α → Nat} {a b : α} {m n : Nat}

/-! ### Depth -/

/-- What a job requires is less deep. -/
theorem HasDepth.lt_of_requires (ha : HasDepth jobs a m) (hb : HasDepth jobs b n)
    (h : Requires jobs a b) : n < m := by
  obtain ⟨⟨c, hchain⟩, -⟩ := hb
  exact ha.2 c (n + 1) (.cons h hchain)

/-- The longest chain below a job begins with one that is deepest among those it requires. -/
theorem HasDepth.exists_requires (h : HasDepth jobs a (n + 1)) :
    ∃ b, Requires jobs a b ∧ HasDepth jobs b n := by
  obtain ⟨⟨c, hchain⟩, hlongest⟩ := h
  cases hchain with
  | @cons _ b _ _ hrequires htail =>
    refine ⟨b, hrequires, ⟨c, htail⟩, ?_⟩
    intro d m hd
    exact Nat.le_of_succ_le_succ (hlongest d (m + 1) (.cons hrequires hd))

/-- Where no job depends on itself, each has a depth. -/
theorem exists_hasDepth (acyclic : ¬ Cyclic jobs) (a : α) : ∃ n, HasDepth jobs a n := by
  classical
  have hbound : ∀ b m, Chain jobs a b m → m ≤ jobs.length := fun b m h => h.length_le acyclic
  refine ⟨Nat.findGreatest (fun m => ∃ b, Chain jobs a b m) jobs.length, ?_, ?_⟩
  · exact Nat.findGreatest_spec (P := fun m => ∃ b, Chain jobs a b m) (Nat.zero_le _) ⟨a, .nil a⟩
  · intro b m h
    exact Nat.le_findGreatest (hbound b m h) ⟨b, h⟩

/-- Depth is a matter of the jobs, not of their places. -/
theorem HasDepth.congr {jobs' : List (Job α)} (hjobs : ∀ j, j ∈ jobs ↔ j ∈ jobs')
    (h : HasDepth jobs a n) : HasDepth jobs' a n := by
  obtain ⟨⟨b, hchain⟩, hlongest⟩ := h
  refine ⟨⟨b, hchain.mono fun j hj => (hjobs j).mp hj⟩, ?_⟩
  intro c m hc
  exact hlongest c m (hc.mono fun j hj => (hjobs j).mpr hj)

/-- A job that is not of depth zero requires one that is one less deep. -/
theorem exists_below (hdepth : ∀ a, HasDepth jobs a (depth a)) (h : depth a ≠ 0) :
    ∃ b, Requires jobs a b ∧ depth a = depth b + 1 := by
  obtain ⟨n, hn⟩ := Nat.exists_eq_succ_of_ne_zero h
  have hdeep := hdepth a
  rw [hn] at hdeep
  obtain ⟨b, hrequires, hb⟩ := hdeep.exists_requires
  exact ⟨b, hrequires, by rw [hn, hb.unique (hdepth b)]⟩

/-- A job has depth zero exactly if it requires nothing. -/
theorem depth_eq_zero_iff (unique : (jobs.map Job.id).Nodup)
    (hdepth : ∀ a, HasDepth jobs a (depth a)) {j : Job α} (hj : j ∈ jobs) :
    depth j.id = 0 ↔ j.requires = [] := by
  constructor
  · intro hzero
    refine List.eq_nil_iff_forall_not_mem.mpr ?_
    intro r hr
    have hlt := (hdepth j.id).lt_of_requires (hdepth r) ⟨j, hj, rfl, hr⟩
    omega
  · intro hnone
    by_contra hpositive
    obtain ⟨b, ⟨k, hk, hid, hb⟩, -⟩ := exists_below hdepth hpositive
    rw [eq_of_id_eq unique hk hj hid, hnone] at hb
    exact absurd hb List.not_mem_nil

variable [DecidableEq α] {queue placed : List α} {counted : List (Counted α)}
  {next : α}

/-- Nothing is missing for a job at first exactly if it requires nothing. -/
theorem counted_missing_eq_zero_iff {j : Job α} : j.counted.missing = 0 ↔ j.requires = [] := by
  rw [Job.counted, Int.natCast_eq_zero, List.length_eq_zero_iff]
  cases hrequires : j.requires with
  | nil => simp
  | cons r rest => simp [List.eraseDups_cons]

/-- The jobs that can be placed at once are those of depth zero. -/
theorem atOnce_eq_filter (unique : (jobs.map Job.id).Nodup)
    (hdepth : ∀ a, HasDepth jobs a (depth a)) :
    atOnce jobs = (jobs.map Job.id).filter fun a => depth a = 0 := by
  rw [atOnce, List.filter_map]
  congr 1
  refine List.filter_congr fun j hj => ?_
  rw [Bool.eq_iff_iff, beq_iff_eq, counted_missing_eq_zero_iff,
    ← depth_eq_zero_iff unique hdepth hj]
  simp

/-! ### Layers -/

/-- How deep the jobs are that have been placed or are in the queue. -/
structure Layered (jobs : List (Job α)) (depth : α → Nat) (queue placed : List α) : Prop where
  sorted : (placed ++ queue).Pairwise fun a b => depth a ≤ depth b
  near : ∀ a ∈ queue, ∀ b ∈ queue, depth b ≤ depth a + 1
  ground : (placed ++ queue).filter (fun a => depth a = 0) = atOnce jobs

/-- At the start there are only jobs of depth zero. -/
theorem Layered.start (unique : (jobs.map Job.id).Nodup)
    (hdepth : ∀ a, HasDepth jobs a (depth a)) : Layered jobs depth (atOnce jobs) [] := by
  have hzero : ∀ a ∈ atOnce jobs, depth a = 0 := by
    intro a ha
    rw [atOnce_eq_filter unique hdepth] at ha
    simpa using (List.mem_filter.mp ha).2
  refine ⟨?_, ?_, ?_⟩
  · refine List.pairwise_of_forall_mem_list fun a ha b _ => ?_
    rw [hzero a ha]
    exact Nat.zero_le _
  · intro a ha b hb
    rw [hzero b hb]
    exact Nat.zero_le _
  · exact List.filter_eq_self.mpr fun a ha => by simp [hzero a ha]

/-- A job is freed by the deepest of those that it requires. -/
theorem Layered.depth_freed (unique : (jobs.map Job.id).Nodup)
    (hdepth : ∀ a, HasDepth jobs a (depth a))
    (underway : Underway jobs (next :: queue) counted placed)
    (h : Layered jobs depth (next :: queue) placed) (ha : a ∈ freed next (countOff next counted)) :
    depth a = depth next + 1 := by
  rw [countOff_eq underway.counts underway.next_not_mem] at ha
  obtain ⟨j, hj, rfl, hrequired, hready⟩ := mem_freed_iff.mp ha
  have hnext := (hdepth j.id).lt_of_requires (hdepth next) ⟨j, hj, rfl, hrequired⟩
  obtain ⟨b, ⟨k, hk, hid, hb⟩, hbelow⟩ :=
    exists_below hdepth (Nat.ne_of_gt (Nat.zero_lt_of_lt hnext))
  rw [eq_of_id_eq unique hk hj hid] at hb
  -- What the job requires is the one placed now or was placed before it, so it is no deeper.
  have hle : depth b ≤ depth next := by
    rcases List.mem_append.mp (hready b hb) with hmem | hmem
    · exact (List.pairwise_append.mp h.sorted).2.2 b hmem next List.mem_cons_self
    · rw [List.mem_singleton.mp hmem]
  omega

/-- Placing the next job keeps the layers: what it frees is one deeper. -/
theorem Layered.step (unique : (jobs.map Job.id).Nodup)
    (hdepth : ∀ a, HasDepth jobs a (depth a))
    (underway : Underway jobs (next :: queue) counted placed)
    (h : Layered jobs depth (next :: queue) placed) :
    Layered jobs depth (queue ++ freed next (countOff next counted)) (placed ++ [next]) := by
  have hfreed : ∀ a ∈ freed next (countOff next counted), depth a = depth next + 1 :=
    fun a ha => h.depth_freed unique hdepth underway ha
  have hplaced : placed ++ [next] ++ (queue ++ freed next (countOff next counted)) =
      (placed ++ next :: queue) ++ freed next (countOff next counted) := by
    simp
  obtain ⟨-, hqueued, hbefore⟩ := List.pairwise_append.mp h.sorted
  have hqueue : ∀ a ∈ queue, depth next ≤ depth a ∧ depth a ≤ depth next + 1 := by
    intro a ha
    exact ⟨List.rel_of_pairwise_cons hqueued ha,
      h.near next List.mem_cons_self a (List.mem_cons_of_mem _ ha)⟩
  refine ⟨?_, ?_, ?_⟩
  · rw [hplaced, List.pairwise_append]
    refine ⟨h.sorted, List.pairwise_of_forall_mem_list fun a ha b hb => ?_, ?_⟩
    · rw [hfreed a ha, hfreed b hb]
    · intro a ha b hb
      rw [hfreed b hb]
      rcases List.mem_append.mp ha with hmem | hmem
      · exact Nat.le_succ_of_le (hbefore a hmem next List.mem_cons_self)
      · exact h.near next List.mem_cons_self a hmem
  · have hbounds : ∀ a ∈ queue ++ freed next (countOff next counted),
        depth next ≤ depth a ∧ depth a ≤ depth next + 1 := by
      intro a ha
      rcases List.mem_append.mp ha with hmem | hmem
      · exact hqueue a hmem
      · have heq := hfreed a hmem
        omega
    intro a ha b hb
    have hlower := (hbounds a ha).1
    have hupper := (hbounds b hb).2
    omega
  · have hnone : (freed next (countOff next counted)).filter (fun a => depth a = 0) = [] :=
      List.filter_eq_nil_iff.mpr fun a ha => by simp [hfreed a ha]
    rw [hplaced, List.filter_append, hnone, List.append_nil, h.ground]

/-- When the queue is empty, what has been placed is in layers. -/
theorem Layered.drain (unique : (jobs.map Job.id).Nodup)
    (hdepth : ∀ a, HasDepth jobs a (depth a)) (underway : Underway jobs queue counted placed)
    (h : Layered jobs depth queue placed) :
    Layered jobs depth [] (Schedule.drain queue counted placed) := by
  induction queue, counted, placed using Schedule.drain.induct with
  | case1 counted placed =>
    rw [Schedule.drain]
    exact h
  | case2 next queue counted placed ih =>
    rw [Schedule.drain]
    exact ih (underway.step unique) (h.step unique hdepth underway)

/-! ### What the order looks at -/

/-- A job that requires the same as another, in whatever order and however often. -/
def Job.Alike (j k : Job α) : Prop := j.id = k.id ∧ ∀ r, r ∈ j.requires ↔ r ∈ k.requires

/-- Alike jobs for which as many are missing. -/
def Counted.Alike (c d : Counted α) : Prop := c.job.Alike d.job ∧ c.missing = d.missing

variable {jobs' : List (Job α)} {counted' : List (Counted α)}

omit [DecidableEq α] in
/-- Lists whose members are picked alike, and made the same of, give the same. -/
theorem map_filter_eq_of_forall₂ {β γ : Type} {bs : List β} {cs : List γ} {p : β → Bool}
    {q : γ → Bool} {f : β → α} {g : γ → α}
    (h : List.Forall₂ (fun b c => p b = q c ∧ f b = g c) bs cs) :
    (bs.filter p).map f = (cs.filter q).map g := by
  induction h with
  | nil => rfl
  | cons hbc _ ih =>
    rw [List.filter_cons, List.filter_cons, hbc.1]
    split
    · rw [List.map_cons, List.map_cons, ih, hbc.2]
    · exact ih

/-- Jobs that are alike miss the same number of others at first. -/
theorem Job.Alike.start {j k : Job α} (h : j.Alike k) : j.counted.Alike k.counted := by
  have hperm : j.requires.eraseDups.Perm k.requires.eraseDups := by
    rw [List.perm_ext_iff_of_nodup (nodup_eraseDups _) (nodup_eraseDups _)]
    intro r
    rw [List.mem_eraseDups, List.mem_eraseDups, h.2]
  refine ⟨h, ?_⟩
  rw [Job.counted, Job.counted, hperm.length_eq]

/-- Jobs that are alike require the same jobs. -/
theorem Job.Alike.contains {j k : Job α} (h : j.Alike k) (r : α) :
    j.requires.contains r = k.requires.contains r := by
  rw [Bool.eq_iff_iff, List.contains_iff_mem, List.contains_iff_mem, h.2]

/-- Jobs that are alike stay so when the same one is counted off for both. -/
theorem countOff_alike (h : List.Forall₂ Counted.Alike counted counted') (next : α) :
    List.Forall₂ Counted.Alike (countOff next counted) (countOff next counted') := by
  rw [countOff, countOff, List.forall₂_map_left_iff, List.forall₂_map_right_iff]
  refine h.imp fun c d hcd => ?_
  rw [hcd.1.contains next]
  split
  · exact ⟨hcd.1, by rw [hcd.2]⟩
  · exact hcd

/-- Where jobs are alike, the same ones are freed. -/
theorem freed_alike (h : List.Forall₂ Counted.Alike counted counted') (next : α) :
    freed next counted = freed next counted' := by
  refine map_filter_eq_of_forall₂ (h.imp fun c d hcd => ?_)
  exact ⟨by rw [hcd.1.contains next, hcd.2], hcd.1.1⟩

/-- Alike jobs are placed in the same order. -/
theorem drain_eq (h : List.Forall₂ Counted.Alike counted counted') :
    drain queue counted placed = drain queue counted' placed := by
  induction queue, counted, placed using drain.induct generalizing counted' with
  | case1 counted placed => rw [drain, drain]
  | case2 next queue counted placed ih =>
    have hoff := countOff_alike h next
    rw [drain, drain, ← freed_alike hoff next, ih hoff]

/-- Where jobs are alike, the same ones can run at once. -/
theorem atOnce_alike (h : List.Forall₂ Job.Alike jobs jobs') : atOnce jobs = atOnce jobs' := by
  refine map_filter_eq_of_forall₂ (h.imp fun j k hjk => ?_)
  exact ⟨by rw [hjk.start.2], hjk.1⟩

/-- Where everything required at present is registered, alike jobs have the same order. -/
theorem order_alike (h : List.Forall₂ Job.Alike jobs jobs') {current current' : α → List α}
    (registered : firstUnregistered jobs current = none)
    (registered' : firstUnregistered jobs' current' = none) :
    order jobs current = order jobs' current' := by
  have hcounted : List.Forall₂ Counted.Alike (jobs.map Job.counted) (jobs'.map Job.counted) := by
    rw [List.forall₂_map_left_iff, List.forall₂_map_right_iff]
    exact h.imp fun _ _ hjk => hjk.start
  simp only [order, registered, registered', atOnce_alike h, drain_eq hcounted, h.length_eq]

/-- An order of jobs is what has been placed when the queue is empty. -/
theorem eq_drain_of_order {current : α → List α} (h : order jobs current = .ok placed) :
    placed = drain (atOnce jobs) (jobs.map Job.counted) [] := by
  unfold order at h
  split at h
  · exact nomatch h
  · simp only at h
    split at h
    · exact (Except.ok.inj h).symm
    · exact nomatch h

end Schedule

/-! ### Registered passes -/

open Schedule (Job Cyclic HasDepth Layered Underway)

variable {H : Host}

namespace Manager

variable {passes passes' : List (Pass H)}

/-- The passes are there as they were registered first. -/
theorem ids_registerAll (passes : List (Pass H)) :
    (registerAll passes).map Job.id = (passes.map Pass.id).eraseDups := by
  induction passes using List.reverseRecOn with
  | nil => rfl
  | append_singleton passes p ih =>
    have hmem : p.id ∈ (registerAll passes).map Job.id ↔ p.id ∈ passes.map Pass.id :=
      mem_ids_registerAll
    rw [registerAll_concat, register_eq, List.map_append, List.map_singleton,
      List.eraseDups_append, ← ih]
    by_cases hthere : p.id ∈ passes.map Pass.id
    · have hnone : [p.id].removeAll (passes.map Pass.id) = [] := by
        rw [List.removeAll, List.filter_cons_of_neg (by simpa using hthere), List.filter_nil]
      rw [if_pos (hmem.mpr hthere), hnone, List.eraseDups_nil, List.append_nil]
    · have hone : [p.id].removeAll (passes.map Pass.id) = [p.id] := by
        rw [List.removeAll, List.filter_cons_of_pos (by simpa using hthere), List.filter_nil]
      rw [if_neg (mt hmem.mp hthere), hone, List.map_append]
      rfl

/-- Alike passes are registered alike. -/
theorem registerAll_alike (h : List.Forall₂ (fun p q => p.job.Alike q.job) passes passes') :
    List.Forall₂ Job.Alike (registerAll passes) (registerAll passes') := by
  have hfrom : ∀ m m' : Manager, List.Forall₂ Job.Alike m m' →
      List.Forall₂ Job.Alike (passes.foldl register m) (passes'.foldl register m') := by
    induction h with
    | nil => exact fun _ _ hm => hm
    | @cons p q passes passes' hpq _ ih =>
      intro m m' hm
      refine ih _ _ ?_
      have hids : m.map Job.id = m'.map Job.id := by
        rw [← List.forall₂_eq_eq_eq, List.forall₂_map_left_iff, List.forall₂_map_right_iff]
        exact hm.imp fun _ _ hjk => hjk.1
      have hid : p.id = q.id := hpq.1
      rw [register_eq, register_eq, hids, hid]
      split
      · exact hm
      · exact List.rel_append hm (.cons hpq .nil)
  exact hfrom [] [] .nil

end Manager

section

variable {t : PassTable H} {passes passes' : List (Pass H)}

/-- What alike passes require is met alike. -/
theorem RequiresMet.of_alike (met : RequiresMet passes)
    (h : List.Forall₂ (fun p q => p.job.Alike q.job) passes passes') : RequiresMet passes' := by
  have hids : passes.map Pass.id = passes'.map Pass.id := by
    rw [← List.forall₂_eq_eq_eq, List.forall₂_map_left_iff, List.forall₂_map_right_iff]
    exact h.imp fun _ _ hpq => hpq.1
  unfold RequiresMet at met ⊢
  rw [← hids]
  generalize passes.map Pass.id = ids at met
  clear hids
  induction h with
  | nil => exact met
  | cons hpq _ ih =>
    rw [List.forall_mem_cons] at met ⊢
    exact ⟨fun r hr => met.1 r ((hpq.2 r).mpr hr), ih met.2⟩

/-- Passes that are all found as they were registered, whose requirements are registered and none of
which depends on itself, have an order in which no pass stands before one of a lower depth. The
passes that require nothing stand in it as they were registered. The same passes with requirements
in another order, or repeated, have the same order. -/
theorem order_layered (unchanged : ∀ p ∈ passes, t.byId? p.id = some p) (met : RequiresMet passes)
    (acyclic : ¬ Cyclic (passes.map Pass.job)) :
    ∃ (ids : List PassId) (depth : PassId → Nat),
      (Manager.registerAll passes).order t = .ok ids ∧
      ids.Nodup ∧ (∀ a, a ∈ ids ↔ a ∈ passes.map Pass.id) ∧
      (∀ a, HasDepth (passes.map Pass.job) a (depth a)) ∧
      ids.Pairwise (fun a b => depth a ≤ depth b) ∧
      ids.filter (fun a => depth a = 0) =
        (passes.map Pass.id).eraseDups.filter (fun a => depth a = 0) ∧
      ∀ (t' : PassTable H) (passes' : List (Pass H)),
        (∀ p ∈ passes', t'.byId? p.id = some p) →
        List.Forall₂ (fun p q => p.job.Alike q.job) passes passes' →
        (Manager.registerAll passes').order t' = .ok ids := by
  have hjobs : ∀ j, j ∈ Manager.registerAll passes ↔ j ∈ passes.map Pass.job :=
    fun j => Manager.mem_registerAll (same_of_byId? unchanged)
  have hunique := Manager.nodup_registerAll passes
  have hregistered := firstUnregistered_eq_none unchanged met
  rw [← Schedule.cyclic_congr hjobs] at acyclic
  obtain ⟨ids, horder, hnodup, hmem, -⟩ := Schedule.exists_order hunique
    (closed_registerAll unchanged met) hregistered acyclic
  choose depth hdepth using Schedule.exists_hasDepth acyclic
  have hlayered := (Layered.start hunique hdepth).drain hunique hdepth (Underway.start hunique)
  rw [← Schedule.eq_drain_of_order horder] at hlayered
  refine ⟨ids, depth, horder, hnodup, ?_, fun a => (hdepth a).congr hjobs, ?_, ?_, ?_⟩
  · intro a
    rw [hmem, Manager.mem_ids_registerAll]
  · have hsorted := hlayered.sorted
    rwa [List.append_nil] at hsorted
  · have hground := hlayered.ground
    rwa [List.append_nil, Schedule.atOnce_eq_filter hunique hdepth,
      Manager.ids_registerAll] at hground
  · intro t' passes' unchanged' alike
    have hregistered' := firstUnregistered_eq_none unchanged' (met.of_alike alike)
    rw [← horder]
    exact (Schedule.order_alike (Manager.registerAll_alike alike) hregistered hregistered').symm

end

namespace Stages

/-- A pass with its requirements from the last to the first, and then once more. -/
def echoed (p : Pass H) : Pass H := { p with requires := p.requires.reverse ++ p.requires }

/-- Passes are alike the same passes with their requirements turned round and repeated. -/
theorem alike_echoed (passes : List (Pass H)) :
    List.Forall₂ (fun p q => p.job.Alike q.job) passes (passes.map echoed) := by
  rw [List.forall₂_map_right_iff, List.forall₂_same]
  intro p _
  refine ⟨rfl, ?_⟩
  intro r
  simp [Pass.job, echoed]

end Stages

/-- The passes with a check that requires the lowering and, past it, the normalization; and the same
passes with the requirements of each turned round and repeated. -/
theorem order_layered_stages :
    (∀ p ∈ Stages.registered, Stages.table.byId? p.id = some p) ∧
      RequiresMet Stages.registered ∧ ¬ Cyclic (Stages.registered.map Pass.job) ∧
      ∃ (ids : List PassId) (depth : PassId → Nat),
        (Manager.registerAll Stages.registered).order Stages.table = .ok ids ∧
        HasDepth (Stages.registered.map Pass.job) Stages.check.id (depth Stages.check.id) ∧
        ids.Pairwise (fun a b => depth a ≤ depth b) ∧
        (Manager.registerAll (Stages.registered.map Stages.echoed)).order
          (Stages.table.map Stages.echoed) = .ok ids := by
  have hunchanged := (List.forall_mem_cons.mp Stages.unchanged).2
  have hechoed : ∀ p ∈ Stages.registered.map Stages.echoed,
      PassTable.byId? (Stages.table.map Stages.echoed) p.id = some p := by
    simp only [Stages.registered, List.map_cons, List.map_nil, List.forall_mem_cons]
    exact ⟨rfl, rfl, rfl, rfl, by simp⟩
  refine ⟨hunchanged, Stages.requiresMet_registered, Stages.not_cyclic_registered, ?_⟩
  obtain ⟨ids, depth, horder, -, -, hdepth, hsorted, -, hsame⟩ :=
    order_layered hunchanged Stages.requiresMet_registered Stages.not_cyclic_registered
  exact ⟨ids, depth, horder, hdepth _, hsorted, hsame _ _ hechoed (Stages.alike_echoed _)⟩

end CanonicalAccess
