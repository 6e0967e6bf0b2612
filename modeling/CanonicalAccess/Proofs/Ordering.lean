import CanonicalAccess.Pass.Dependence
import Mathlib.Data.List.Nodup
import Mathlib.Data.List.Perm.Subperm

/-!
# Orders of jobs

The order of jobs is found by counting: a job that is placed is counted off for those that require
it, and what has nothing left to wait for joins the queue. `Underway` says how far this has come.
The number kept for a job is that of the jobs it requires that have not been placed, a job is placed
or in the queue exactly if all it requires has been placed, once, and whatever has been placed comes
after what it requires. Every step keeps this, and so does the whole run (`Underway.drain`).

When the queue is empty, the jobs that are left over each require another of them, if everything
that is required is registered. So jobs are left over exactly if some depend on themselves
(`order_eq_circular_iff`).
-/

set_option autoImplicit false

namespace CanonicalAccess.Schedule

variable {α : Type} [DecidableEq α]

/-! ### Counting -/

/-- Without repetitions, nothing is repeated. -/
theorem nodup_eraseDups (as : List α) : as.eraseDups.Nodup := by
  cases as with
  | nil => exact List.nodup_nil
  | cons a as =>
    rw [List.eraseDups_cons, List.nodup_cons]
    refine ⟨?_, nodup_eraseDups (as.filter fun b => !b == a)⟩
    rw [List.mem_eraseDups, List.mem_filter]
    rintro ⟨-, hne⟩
    simp at hne
termination_by as.length
decreasing_by
  have hle := List.length_filter_le (fun b => !b == a) as
  rw [List.length_cons]
  omega

/-- The number of jobs that a job requires and that have not been placed. -/
def Job.missing (placed : List α) (j : Job α) : Nat :=
  j.requires.eraseDups.countP fun r => decide (r ∉ placed)

/-- Nothing is missing for a job exactly if all that it requires has been placed. -/
theorem Job.missing_eq_zero_iff {placed : List α} {j : Job α} :
    j.missing placed = 0 ↔ ∀ r ∈ j.requires, r ∈ placed := by
  simp [missing, List.countP_eq_zero]

/-- A job that is placed is counted off once by those that require it. -/
theorem Job.missing_concat {placed : List α} {next : α} (h : next ∉ placed) (j : Job α) :
    j.missing (placed ++ [next]) + (if next ∈ j.requires then 1 else 0) = j.missing placed := by
  have hcount : ∀ as : List α,
      as.countP (fun r => decide (r ∉ placed ++ [next])) + as.count next =
        as.countP fun r => decide (r ∉ placed) := by
    intro as
    induction as with
    | nil => rfl
    | cons a as ih =>
      rw [List.countP_cons, List.countP_cons, List.count_cons]
      simp only [List.mem_append, List.mem_singleton, decide_eq_true_eq, beq_iff_eq] at ih ⊢
      by_cases ha : a = next
      · subst ha
        rw [if_neg (by simp), if_pos rfl, if_pos h]
        omega
      · rw [if_neg ha]
        simp only [ha, or_false]
        omega
  have hrequired : j.requires.eraseDups.count next = if next ∈ j.requires then 1 else 0 := by
    rw [(nodup_eraseDups _).count]
    simp only [List.mem_eraseDups]
  rw [missing, missing, ← hcount, hrequired]

/-! ### The run -/

/-- Every job in a list comes after those that it requires. -/
def Ordered (jobs : List (Job α)) (placed : List α) : Prop :=
  ∀ before a after, placed = before ++ a :: after → ∀ b, Requires jobs a b → b ∈ before

omit [DecidableEq α] in

/-- A job may be put last if all that it requires has been placed. -/
theorem Ordered.concat {jobs : List (Job α)} {placed : List α} {next : α}
    (h : Ordered jobs placed) (hnext : ∀ b, Requires jobs next b → b ∈ placed) :
    Ordered jobs (placed ++ [next]) := by
  intro before a after hsplit b hb
  rcases List.eq_nil_or_concat after with rfl | ⟨after, last, rfl⟩
  · obtain ⟨rfl, hlast⟩ := List.append_inj' hsplit rfl
    cases hlast
    exact hnext b hb
  · rw [List.concat_eq_append, ← List.cons_append, ← List.append_assoc] at hsplit
    exact h before a after (List.append_inj_left' hsplit rfl) b hb

/-- How far an order of jobs has come. -/
structure Underway (jobs : List (Job α)) (queue : List α) (counted : List (Counted α))
    (placed : List α) : Prop where
  counts : counted = jobs.map fun j => ⟨j, j.missing placed⟩
  nodup : (placed ++ queue).Nodup
  mem_iff : ∀ a, a ∈ placed ++ queue ↔ ∃ j ∈ jobs, j.id = a ∧ ∀ r ∈ j.requires, r ∈ placed
  ordered : Ordered jobs placed

variable {jobs : List (Job α)} {queue placed : List α} {counted : List (Counted α)} {next : α}

/-- To count off the next job is to place it. -/
theorem countOff_eq (h : counted = jobs.map fun j => ⟨j, j.missing placed⟩)
    (fresh : next ∉ placed) :
    countOff next counted = jobs.map fun j => ⟨j, j.missing (placed ++ [next])⟩ := by
  rw [h, countOff, List.map_map]
  refine List.map_congr_left fun j _ => ?_
  have hmissing := Job.missing_concat fresh j
  simp only [Function.comp_apply, List.contains_iff_mem]
  by_cases hrequired : next ∈ j.requires
  · rw [if_pos hrequired] at hmissing ⊢
    rw [← hmissing]
    simp
  · rw [if_neg hrequired] at hmissing ⊢
    rw [← hmissing, Nat.add_zero]

/-- The jobs that are freed are those that require the job placed last and nothing that has not been
placed. -/
theorem mem_freed_iff {a : α} :
    a ∈ freed next (jobs.map fun j => ⟨j, j.missing (placed ++ [next])⟩) ↔
      ∃ j ∈ jobs, j.id = a ∧ next ∈ j.requires ∧ ∀ r ∈ j.requires, r ∈ placed ++ [next] := by
  simp only [freed, List.mem_map, List.mem_filter, Bool.and_eq_true, List.contains_iff_mem,
    beq_iff_eq, ← Job.missing_eq_zero_iff]
  constructor
  · rintro ⟨-, ⟨⟨j, hj, rfl⟩, hrequired, hmissing⟩, rfl⟩
    exact ⟨j, hj, rfl, hrequired, Int.natCast_eq_zero.mp hmissing⟩
  · rintro ⟨j, hj, rfl, hrequired, hmissing⟩
    exact ⟨_, ⟨⟨j, hj, rfl⟩, hrequired, Int.natCast_eq_zero.mpr hmissing⟩, rfl⟩

omit [DecidableEq α] in

/-- Jobs that are listed once are told apart by their names. -/
theorem eq_of_id_eq (unique : (jobs.map Job.id).Nodup) {j k : Job α} (hj : j ∈ jobs) (hk : k ∈ jobs)
    (h : j.id = k.id) : j = k := List.inj_on_of_nodup_map unique hj hk h

namespace Underway

/-- At the start nothing has been placed, and the queue holds the jobs that require nothing. -/
theorem start (unique : (jobs.map Job.id).Nodup) :
    Underway jobs (atOnce jobs) (jobs.map Job.counted) [] := by
  have hmissing : ∀ j : Job α, j.counted = ⟨j, j.missing []⟩ := by
    intro j
    have hall : j.requires.eraseDups.countP (fun r => decide (r ∉ [])) =
        j.requires.eraseDups.length := List.countP_eq_length.mpr (by simp)
    rw [Job.counted, Job.missing, hall]
  refine ⟨?_, ?_, ?_, ?_⟩
  · exact List.map_congr_left fun j _ => hmissing j
  · rw [List.nil_append, atOnce]
    exact unique.sublist (List.filter_sublist.map _)
  · intro a
    simp only [List.nil_append, atOnce, List.mem_map, List.mem_filter, beq_iff_eq, hmissing,
      Int.natCast_eq_zero, Job.missing_eq_zero_iff]
    constructor
    · rintro ⟨j, ⟨hj, hready⟩, rfl⟩
      exact ⟨j, hj, rfl, hready⟩
    · rintro ⟨j, hj, rfl, hready⟩
      exact ⟨j, ⟨hj, hready⟩, rfl⟩
  · intro before a after hsplit
    exact absurd hsplit (by simp)

/-- What is required by a job that has been placed or is in the queue has been placed. -/
theorem mem_of_requires (unique : (jobs.map Job.id).Nodup) (h : Underway jobs queue counted placed)
    {a b : α} (ha : a ∈ placed ++ queue) (hrequires : Requires jobs a b) : b ∈ placed := by
  obtain ⟨j, hj, hid, hb⟩ := hrequires
  obtain ⟨k, hk, hid', hready⟩ := (h.mem_iff a).mp ha
  rw [eq_of_id_eq unique hk hj (hid'.trans hid.symm)] at hready
  exact hready b hb

/-- The next job in the queue has not been placed. -/
theorem next_not_mem (h : Underway jobs (next :: queue) counted placed) : next ∉ placed := by
  intro hmem
  exact List.disjoint_of_nodup_append h.nodup hmem List.mem_cons_self

/-- Nothing is freed that has been placed or is in the queue, for it requires the job that is placed
only now. -/
theorem nodup_freed (unique : (jobs.map Job.id).Nodup)
    (h : Underway jobs (next :: queue) counted placed) :
    ((placed ++ next :: queue) ++ freed next (countOff next counted)).Nodup := by
  rw [countOff_eq h.counts h.next_not_mem]
  refine h.nodup.append ?_ ?_
  · rw [freed, List.filter_map, List.map_map]
    exact unique.sublist (List.filter_sublist.map _)
  · intro a ha hfreed
    obtain ⟨j, hj, hid, hrequired, -⟩ := mem_freed_iff.mp hfreed
    exact h.next_not_mem (h.mem_of_requires unique ha ⟨j, hj, hid, hrequired⟩)

/-- The jobs that have nothing left to wait for when the next has been placed are those that had
nothing before and those that are freed. -/
theorem mem_freed_concat (h : Underway jobs (next :: queue) counted placed) (a : α) :
    a ∈ (placed ++ next :: queue) ++ freed next (countOff next counted) ↔
      ∃ j ∈ jobs, j.id = a ∧ ∀ r ∈ j.requires, r ∈ placed ++ [next] := by
  rw [countOff_eq h.counts h.next_not_mem, List.mem_append, h.mem_iff, mem_freed_iff]
  constructor
  · rintro (⟨j, hj, hid, hready⟩ | ⟨j, hj, hid, -, hready⟩)
    · exact ⟨j, hj, hid, fun r hr => List.mem_append_left _ (hready r hr)⟩
    · exact ⟨j, hj, hid, hready⟩
  · rintro ⟨j, hj, hid, hready⟩
    by_cases hrequired : next ∈ j.requires
    · exact .inr ⟨j, hj, hid, hrequired, hready⟩
    · refine .inl ⟨j, hj, hid, ?_⟩
      intro r hr
      rcases List.mem_append.mp (hready r hr) with hmem | hmem
      · exact hmem
      · rw [List.mem_singleton.mp hmem] at hr
        exact absurd hr hrequired

/-- Placing the next job in the queue takes the order one step further. -/
theorem step (unique : (jobs.map Job.id).Nodup)
    (h : Underway jobs (next :: queue) counted placed) :
    Underway jobs (queue ++ freed next (countOff next counted)) (countOff next counted)
      (placed ++ [next]) := by
  have hplaced : placed ++ [next] ++ (queue ++ freed next (countOff next counted)) =
      (placed ++ next :: queue) ++ freed next (countOff next counted) := by
    simp
  refine ⟨countOff_eq h.counts h.next_not_mem, ?_, ?_, ?_⟩
  · rw [hplaced]
    exact h.nodup_freed unique
  · rw [hplaced]
    exact h.mem_freed_concat
  · exact h.ordered.concat fun b hb => h.mem_of_requires unique (by simp) hb

/-- The run goes on until the queue is empty. -/
theorem drain (unique : (jobs.map Job.id).Nodup) (h : Underway jobs queue counted placed) :
    ∃ counted', Underway jobs [] counted' (Schedule.drain queue counted placed) := by
  induction queue, counted, placed using Schedule.drain.induct with
  | case1 counted placed =>
    rw [Schedule.drain]
    exact ⟨counted, h⟩
  | case2 next queue counted placed ih =>
    rw [Schedule.drain]
    exact ih (h.step unique)

end Underway

/-! ### What is left over -/

/-- What has been placed when the queue is empty. -/
structure Placement (jobs : List (Job α)) (placed : List α) : Prop where
  nodup : placed.Nodup
  mem_iff : ∀ a, a ∈ placed ↔ ∃ j ∈ jobs, j.id = a ∧ ∀ r ∈ j.requires, r ∈ placed
  ordered : Ordered jobs placed

/-- The run places the jobs as long as any can be placed. -/
theorem placement_drain (unique : (jobs.map Job.id).Nodup) :
    Placement jobs (drain (atOnce jobs) (jobs.map Job.counted) []) := by
  obtain ⟨counted, h⟩ := (Underway.start unique).drain unique
  refine ⟨?_, ?_, h.ordered⟩
  · have hnodup := h.nodup
    rwa [List.append_nil] at hnodup
  · intro a
    have hmem := h.mem_iff a
    rwa [List.append_nil] at hmem

/-! ### Cycles -/

variable {a b : α} {n : Nat}

omit [DecidableEq α] in
/-- In a list in order, what a job depends on comes before the job. -/
theorem Ordered.mem_before (h : Ordered jobs placed) (hchain : Chain jobs a b n) (hn : n ≠ 0)
    {before after : List α} (hsplit : placed = before ++ a :: after) : b ∈ before := by
  induction hchain generalizing before after with
  | nil => exact absurd rfl hn
  | @cons a c b n hrequires htail ih =>
    have hc : c ∈ before := h before a after hsplit c hrequires
    by_cases hzero : n = 0
    · subst hzero
      cases htail
      exact hc
    · obtain ⟨front, back, rfl⟩ := List.append_of_mem hc
      rw [List.append_assoc, List.cons_append] at hsplit
      exact List.mem_append_left _ (ih hzero hsplit)

omit [DecidableEq α] in
/-- Jobs that are all in order do not depend on themselves. -/
theorem Placement.not_cyclic (h : Placement jobs placed) (all : ∀ j ∈ jobs, j.id ∈ placed) :
    ¬ Cyclic jobs := by
  rintro ⟨a, n, hchain⟩
  have ha : a ∈ placed := by
    cases hchain with
    | cons hrequires _ =>
      obtain ⟨j, hj, rfl, -⟩ := hrequires
      exact all j hj
  obtain ⟨before, after, hsplit⟩ := List.append_of_mem ha
  have hbefore := h.ordered.mem_before hchain (Nat.succ_ne_zero n) hsplit
  have hnodup := h.nodup
  rw [hsplit] at hnodup
  exact List.disjoint_of_nodup_append hnodup hbefore List.mem_cons_self

omit [DecidableEq α] in
/-- Where no job depends on itself, a chain comes to no job twice. -/
theorem Chain.exists_path (acyclic : ¬ Cyclic jobs) (h : Chain jobs a b n) :
    ∃ path : List α, path.length = n ∧ path.Nodup ∧
      ∀ c ∈ path, c ∈ jobs.map Job.id ∧ ∃ k, Chain jobs a c k := by
  induction h with
  | nil => exact ⟨[], rfl, List.nodup_nil, by simp⟩
  | @cons a b c n hrequires _ ih =>
    obtain ⟨path, hlength, hnodup, hpath⟩ := ih
    have ha : a ∈ jobs.map Job.id := by
      obtain ⟨j, hj, rfl, -⟩ := hrequires
      exact List.mem_map_of_mem hj
    refine ⟨a :: path, by rw [List.length_cons, hlength], ?_, ?_⟩
    · refine List.nodup_cons.mpr ⟨?_, hnodup⟩
      intro hmem
      obtain ⟨-, k, hchain⟩ := hpath a hmem
      exact acyclic ⟨a, k, .cons hrequires hchain⟩
    · rw [List.forall_mem_cons]
      refine ⟨⟨ha, 0, .nil a⟩, ?_⟩
      intro d hd
      obtain ⟨hregistered, k, hchain⟩ := hpath d hd
      exact ⟨hregistered, k + 1, .cons hrequires hchain⟩

omit [DecidableEq α] in
/-- Where no job depends on itself, no chain is longer than there are jobs. -/
theorem Chain.length_le (acyclic : ¬ Cyclic jobs) (h : Chain jobs a b n) : n ≤ jobs.length := by
  obtain ⟨path, rfl, hnodup, hpath⟩ := h.exists_path acyclic
  have hsubset : path ⊆ jobs.map Job.id := fun c hc => (hpath c hc).1
  have hle := (hnodup.subperm hsubset).length_le
  rwa [List.length_map] at hle

omit [DecidableEq α] in
/-- Jobs each of which requires another of them have chains of every length. -/
theorem exists_chain {stuck : α → Prop} (requires : ∀ a, stuck a → ∃ b, stuck b ∧ Requires jobs a b)
    (ha : stuck a) (n : Nat) : ∃ b, Chain jobs a b n := by
  induction n generalizing a with
  | zero => exact ⟨a, .nil a⟩
  | succ n ih =>
    obtain ⟨b, hb, hrequires⟩ := requires a ha
    obtain ⟨c, hchain⟩ := ih hb
    exact ⟨c, .cons hrequires hchain⟩

omit [DecidableEq α] in
/-- If everything required is registered and no job depends on itself, no job is left over. -/
theorem Placement.mem_of_not_cyclic (h : Placement jobs placed) (closed : Closed jobs)
    (acyclic : ¬ Cyclic jobs) {j : Job α} (hj : j ∈ jobs) : j.id ∈ placed := by
  by_contra hleft
  -- What is left over requires something that is left over too.
  have hrequires : ∀ a, (a ∈ jobs.map Job.id ∧ a ∉ placed) →
      ∃ b, (b ∈ jobs.map Job.id ∧ b ∉ placed) ∧ Requires jobs a b := by
    rintro a ⟨hregistered, hleft⟩
    obtain ⟨k, hk, rfl⟩ := List.mem_map.mp hregistered
    have hmissing : ¬ ∀ r ∈ k.requires, r ∈ placed := by
      intro hready
      exact hleft ((h.mem_iff _).mpr ⟨k, hk, rfl, hready⟩)
    simp only [not_forall] at hmissing
    obtain ⟨r, hr, hleft'⟩ := hmissing
    have hrequires : Requires jobs k.id r := ⟨k, hk, rfl, hr⟩
    obtain ⟨i, hi, rfl⟩ := closed _ _ hrequires
    exact ⟨i.id, ⟨List.mem_map_of_mem hi, hleft'⟩, hrequires⟩
  obtain ⟨b, hchain⟩ := exists_chain hrequires ⟨List.mem_map_of_mem hj, hleft⟩ (jobs.length + 1)
  have hle := hchain.length_le acyclic
  omega

omit [DecidableEq α] in
/-- As many jobs have been placed as there are exactly if all have been placed. -/
theorem Placement.length_eq_iff (h : Placement jobs placed) (unique : (jobs.map Job.id).Nodup) :
    placed.length = jobs.length ↔ ∀ j ∈ jobs, j.id ∈ placed := by
  have hsubset : placed ⊆ jobs.map Job.id := by
    intro a ha
    obtain ⟨j, hj, rfl, -⟩ := (h.mem_iff a).mp ha
    exact List.mem_map_of_mem hj
  have hsubperm := h.nodup.subperm hsubset
  constructor
  · intro hlength j hj
    have hle : (jobs.map Job.id).length ≤ placed.length := by
      rw [List.length_map]
      omega
    have hperm := hsubperm.perm_of_length_le hle
    exact hperm.mem_iff.mpr (List.mem_map_of_mem hj)
  · intro all
    have hsubset' : jobs.map Job.id ⊆ placed := by
      intro a ha
      obtain ⟨j, hj, rfl⟩ := List.mem_map.mp ha
      exact all j hj
    have hle := hsubperm.length_le
    have hle' := (unique.subperm hsubset').length_le
    rw [List.length_map] at hle hle'
    omega

omit [DecidableEq α] in
/-- Jobs that only require jobs of a lower rank do not depend on themselves. -/
theorem not_cyclic_of_rank (rank : α → Nat) (h : ∀ a b, Requires jobs a b → rank b < rank a) :
    ¬ Cyclic jobs := by
  have hchain : ∀ a b n, Chain jobs a b n → rank b + n ≤ rank a := by
    intro a b n hchain
    induction hchain with
    | nil => simp
    | cons hrequires _ ih =>
      have hlower := h _ _ hrequires
      omega
  rintro ⟨a, n, hcycle⟩
  have hle := hchain a a (n + 1) hcycle
  omega

omit [DecidableEq α] in
/-- A chain of requirements is one among more jobs too. -/
theorem Chain.mono {jobs' : List (Job α)} (hsub : jobs ⊆ jobs') (h : Chain jobs a b n) :
    Chain jobs' a b n := by
  induction h with
  | nil a => exact .nil a
  | cons hrequires _ ih =>
    obtain ⟨j, hj, hid, hr⟩ := hrequires
    exact .cons ⟨j, hsub hj, hid, hr⟩ ih

omit [DecidableEq α] in
/-- Whether some job depends on itself is a matter of the jobs, not of their places. -/
theorem cyclic_congr {jobs' : List (Job α)} (h : ∀ j, j ∈ jobs ↔ j ∈ jobs') :
    Cyclic jobs ↔ Cyclic jobs' := by
  constructor
  · rintro ⟨a, n, hchain⟩
    exact ⟨a, n, hchain.mono fun j hj => (h j).mp hj⟩
  · rintro ⟨a, n, hchain⟩
    exact ⟨a, n, hchain.mono fun j hj => (h j).mpr hj⟩

/-! ### The order -/

variable {current : α → List α}

/-- There is no order if a job requires one that is not registered, and the first such job is
reported. -/
theorem order_of_firstUnregistered {r : α} (h : firstUnregistered jobs current = some (a, r)) :
    order jobs current = .error (.unregistered a r) := by
  simp only [order, h]

/-- Where everything required is registered, jobs have no order exactly if one depends on itself. -/
theorem order_eq_circular_iff (unique : (jobs.map Job.id).Nodup) (closed : Closed jobs)
    (registered : firstUnregistered jobs current = none) :
    order jobs current = .error .circular ↔ Cyclic jobs := by
  have hplacement := placement_drain unique
  have hlength := hplacement.length_eq_iff unique
  simp only [order, registered]
  split
  · rename_i hall
    have hacyclic := hplacement.not_cyclic (hlength.mp hall)
    simp [hacyclic]
  · rename_i hleft
    rw [hlength] at hleft
    simp only [true_iff]
    by_contra hacyclic
    exact hleft fun j hj => hplacement.mem_of_not_cyclic closed hacyclic hj

/-- Where everything required is registered and no job depends on itself, the order holds every
registered job once, after all that it requires. -/
theorem exists_order (unique : (jobs.map Job.id).Nodup) (closed : Closed jobs)
    (registered : firstUnregistered jobs current = none) (acyclic : ¬ Cyclic jobs) :
    ∃ placed, order jobs current = .ok placed ∧ placed.Nodup ∧
      (∀ a, a ∈ placed ↔ a ∈ jobs.map Job.id) ∧ Ordered jobs placed := by
  have hplacement := placement_drain unique
  have hall : ∀ j ∈ jobs, j.id ∈ drain (atOnce jobs) (jobs.map Job.counted) [] :=
    fun j hj => hplacement.mem_of_not_cyclic closed acyclic hj
  refine ⟨_, ?_, hplacement.nodup, ?_, hplacement.ordered⟩
  · simp only [order, registered]
    rw [if_pos ((hplacement.length_eq_iff unique).mpr hall)]
  · intro a
    rw [List.mem_map]
    constructor
    · intro ha
      obtain ⟨j, hj, hid, -⟩ := (hplacement.mem_iff a).mp ha
      exact ⟨j, hj, hid⟩
    · rintro ⟨j, hj, rfl⟩
      exact hall j hj

end CanonicalAccess.Schedule
