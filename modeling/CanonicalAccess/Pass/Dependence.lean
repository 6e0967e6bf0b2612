import CanonicalAccess.Pass.Schedule

/-!
# Chains of requirements

A job depends on another through a chain of requirements. Jobs that depend on themselves cannot be
ordered; otherwise the depth of a job is the length of the longest chain below it.
-/

set_option autoImplicit false

namespace CanonicalAccess.Schedule

variable {α : Type} [DecidableEq α]

/-- A registered job requires another. -/
def Requires (jobs : List (Job α)) (a b : α) : Prop := ∃ j ∈ jobs, j.id = a ∧ b ∈ j.requires

/-- A chain of requirements of some length leads from a job down to another. -/
inductive Chain (jobs : List (Job α)) : α → α → Nat → Prop where
  | nil (a : α) : Chain jobs a a 0
  | cons {a b c : α} {n : Nat} : Requires jobs a b → Chain jobs b c n → Chain jobs a c (n + 1)

/-- Some job depends on itself. -/
def Cyclic (jobs : List (Job α)) : Prop := ∃ a n, Chain jobs a a (n + 1)

/-- The longest chain below a job has this length. -/
def HasDepth (jobs : List (Job α)) (a : α) (n : Nat) : Prop :=
  (∃ b, Chain jobs a b n) ∧ ∀ b m, Chain jobs a b m → m ≤ n

/-- Everything that a registered job requires is registered. -/
def Closed (jobs : List (Job α)) : Prop :=
  ∀ a b, Requires jobs a b → ∃ j ∈ jobs, j.id = b

omit [DecidableEq α] in
/-- A job has only one depth. -/
theorem HasDepth.unique {jobs : List (Job α)} {a : α} {m n : Nat} (h : HasDepth jobs a m)
    (h' : HasDepth jobs a n) : m = n := by
  obtain ⟨⟨b, hb⟩, hm⟩ := h
  obtain ⟨⟨c, hc⟩, hn⟩ := h'
  exact Nat.le_antisymm (hn b m hb) (hm c n hc)

end CanonicalAccess.Schedule
