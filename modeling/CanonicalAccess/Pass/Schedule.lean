/-!
# Order of jobs that require each other

Jobs are registered once, each with the jobs that have to come before it. An order takes the jobs
that require nothing in the order of registration, and every other job as soon as the last job it
requires has been placed; of several that become ready at once the one registered first comes
first. To this end the number of jobs that are still missing is counted down for each job.

There is no order if a job requires one that is not registered, or if some jobs wait for each
other. The requirements that are checked for registration are the current ones, while the order
goes by those that were in force when a job was registered.
-/

set_option autoImplicit false

namespace CanonicalAccess.Schedule

variable {α : Type} [DecidableEq α]

/-- A registered job, with the jobs it required at registration. -/
structure Job (α : Type) where
  id : α
  requires : List α
deriving DecidableEq, Repr

inductive Problem (α : Type) where
  | unregistered (job required : α)
  | circular
deriving DecidableEq, Repr

/-- Registers a job, behind those that are; one that is registered stays as it is. -/
def register (jobs : List (Job α)) (id : α) (requires : List α) : List (Job α) :=
  if jobs.any fun j => j.id = id then jobs else jobs ++ [⟨id, requires⟩]

/-- A job, and the number of jobs it requires that have not been placed. The number is only ever
lowered, also below zero, so a job comes to zero once at most. -/
structure Counted (α : Type) where
  job : Job α
  missing : Int
deriving DecidableEq, Repr

/-- A job at the start; one that it requires more than once is counted once. -/
def Job.counted (j : Job α) : Counted α := ⟨j, j.requires.eraseDups.length⟩

/-- One job less is missing for those that require the one that is placed next. -/
def countOff (next : α) (counted : List (Counted α)) : List (Counted α) :=
  counted.map fun c =>
    if c.job.requires.contains next then { c with missing := c.missing - 1 } else c

/-- The jobs for which nothing is missing any more, now that the next has been placed. -/
def freed (next : α) (counted : List (Counted α)) : List α :=
  (counted.filter fun c => c.job.requires.contains next && c.missing == 0).map fun c => c.job.id

/-- The number of jobs for which something is missing. -/
def waiting (counted : List (Counted α)) : Nat := counted.countP fun c => decide (0 < c.missing)

/-- A job for which nothing is missing any more has stopped waiting. -/
theorem length_freed_add_waiting_le (next : α) (counted : List (Counted α)) :
    (freed next (countOff next counted)).length + waiting (countOff next counted) ≤
      waiting counted := by
  induction counted with
  | nil => simp [freed, countOff, waiting]
  | cons c rest ih =>
    simp only [freed, countOff, waiting, List.length_map, List.map_cons, List.filter_cons,
      List.countP_cons] at ih ⊢
    by_cases hrequired : c.job.requires.contains next = true
    · rw [if_pos hrequired]
      by_cases hlast : c.missing = 1
      · simp only [hrequired, hlast, Int.sub_self, beq_self_eq_true, Bool.and_self, if_true,
          List.length_cons, decide_eq_true_eq, Int.lt_irrefl, if_false, Int.zero_lt_one]
        omega
      · have hkept : ¬ c.missing - 1 = 0 := by omega
        simp only [hrequired, Bool.true_and, beq_iff_eq, if_neg hkept, decide_eq_true_eq]
        split <;> split <;> omega
    · rw [if_neg hrequired]
      simp only [hrequired, Bool.false_and, Bool.false_eq_true, if_false, decide_eq_true_eq]
      omega

/-- Places the jobs in the queue one by one; behind each, the jobs for which nothing is missing any
more join the queue. The answer is what was placed. -/
def drain : List α → List (Counted α) → List α → List α
  | [], _, placed => placed
  | next :: queue, counted, placed =>
    drain (queue ++ freed next (countOff next counted)) (countOff next counted) (placed ++ [next])
termination_by queue counted => queue.length + waiting counted
decreasing_by
  have h := length_freed_add_waiting_le next counted
  simp only [List.length_append, List.length_cons]
  omega

/-- The jobs that require nothing. -/
def atOnce (jobs : List (Job α)) : List α :=
  (jobs.filter fun j => j.counted.missing == 0).map Job.id

/-- The first of the required jobs that is not registered, for the first job that has one. -/
def firstUnregistered (jobs : List (Job α)) (current : α → List α) : Option (α × α) :=
  jobs.findSome? fun j =>
    ((current j.id).find? fun r => !jobs.any fun k => k.id = r).map fun r => (j.id, r)

/-- The order of the registered jobs, given what each of them requires at present. -/
def order (jobs : List (Job α)) (current : α → List α) : Except (Problem α) (List α) :=
  match firstUnregistered jobs current with
  | some (job, required) => .error (.unregistered job required)
  | none =>
    let placed := drain (atOnce jobs) (jobs.map Job.counted) []
    if placed.length = jobs.length then .ok placed else .error .circular

end CanonicalAccess.Schedule
