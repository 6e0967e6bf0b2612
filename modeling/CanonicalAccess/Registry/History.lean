import CanonicalAccess.Registry.Definition

/-!
# Histories of a registry

A registry is reachable if some sequence of definitions leads to it, the refused ones included,
which may leave an accessor behind. In between, handles may go to members elsewhere.

The steps of a history can also be given one by one. Then it can be said which properties and
indexers its definitions returned.
-/

set_option autoImplicit false

namespace CanonicalAccess

namespace Catalogue

/-- A catalogue without members, whose first free handle is given. -/
def start (nextHandle : Nat) : Catalogue := ⟨.empty, nextHandle, []⟩

/-- The catalogue after a definition, carried out or refused. -/
def after (c : Catalogue) (d : Definition) : Catalogue :=
  match d.perform c with
  | .ok _ c' => c'
  | .error _ c' => c'

/-- The catalogue with handles passed over that went to members elsewhere. -/
def skip (c : Catalogue) (handles : Nat) : Catalogue :=
  { c with nextHandle := c.nextHandle + handles }

/-- The catalogues to which definitions lead. -/
inductive Reachable : Catalogue → Prop where
  | start (nextHandle : Nat) : Reachable (start nextHandle)
  | define {c : Catalogue} (d : Definition) : Reachable c → Reachable (c.after d)
  | skip {c : Catalogue} (handles : Nat) : Reachable c → Reachable (c.skip handles)

end Catalogue

/-- A step of a history: a definition, or handles that go to members elsewhere. -/
inductive Step where
  | define (d : Definition)
  | skip (handles : Nat)
deriving DecidableEq, Repr

namespace Catalogue

def step (c : Catalogue) : Step → Catalogue
  | .define d => c.after d
  | .skip handles => c.skip handles

def run (c : Catalogue) : List Step → Catalogue
  | [] => c
  | s :: steps => (c.step s).run steps

/-- The property or indexer that a step returns, if it defines one and is not refused. -/
def returns? (c : Catalogue) : Step → Option Property
  | .define d =>
    match d.perform c with
    | .ok (.property p) _ => some p
    | _ => none
  | .skip _ => none

/-- The properties and indexers that the steps of a history return, in order. -/
def returned (c : Catalogue) : List Step → List Property
  | [] => []
  | s :: steps => (c.returns? s).toList ++ (c.step s).returned steps

/-- What the step of a history at a place returns. -/
def returnedAt? (c : Catalogue) (steps : List Step) (i : Nat) : Option Property :=
  steps[i]?.bind (c.run (steps.take i)).returns?

/-- A property is among those returned exactly if some step of the history returned it. -/
theorem mem_returned_iff (c : Catalogue) (steps : List Step) (p : Property) :
    p ∈ c.returned steps ↔ ∃ i, c.returnedAt? steps i = some p := by
  induction steps generalizing c with
  | nil => simp [returned, returnedAt?]
  | cons s steps ih =>
    have hzero : c.returnedAt? (s :: steps) 0 = c.returns? s := rfl
    have hsucc : ∀ i, c.returnedAt? (s :: steps) (i + 1) = (c.step s).returnedAt? steps i :=
      fun _ => rfl
    rw [returned, List.mem_append, Option.mem_toList, ih]
    constructor
    · rintro (hs | ⟨i, hi⟩)
      · exact ⟨0, hzero.trans hs⟩
      · exact ⟨i + 1, (hsucc i).trans hi⟩
    · rintro ⟨_ | i, hi⟩
      · exact .inl (hzero.symm.trans hi)
      · exact .inr ⟨i, (hsucc i).symm.trans hi⟩

/-- A step leads from a reachable catalogue to a reachable one. -/
theorem Reachable.step {c : Catalogue} (h : Reachable c) (s : Step) : Reachable (c.step s) := by
  cases s with
  | define d => exact h.define d
  | skip n => exact h.skip n

/-- A history leads from a reachable catalogue to a reachable one. -/
theorem Reachable.run {c : Catalogue} (h : Reachable c) (steps : List Step) :
    Reachable (c.run steps) := by
  induction steps generalizing c with
  | nil => exact h
  | cons s steps ih => exact ih (h.step s)

/-- A history is run by running a first part of it and then the rest. -/
theorem run_append (c : Catalogue) (steps steps' : List Step) :
    c.run (steps ++ steps') = (c.run steps).run steps' := by
  induction steps generalizing c with
  | nil => rfl
  | cons s steps ih => exact ih (c.step s)

/-- What is reachable is what histories lead to. -/
theorem reachable_iff_exists_run (c : Catalogue) :
    Reachable c ↔ ∃ n steps, (start n).run steps = c := by
  constructor
  · intro h
    induction h with
    | start n => exact ⟨n, [], rfl⟩
    | define d _ ih =>
      obtain ⟨n, steps, rfl⟩ := ih
      exact ⟨n, steps ++ [.define d], run_append _ _ _⟩
    | skip handles _ ih =>
      obtain ⟨n, steps, rfl⟩ := ih
      exact ⟨n, steps ++ [.skip handles], run_append _ _ _⟩
  · rintro ⟨n, steps, rfl⟩
    exact (Reachable.start n).run steps

end Catalogue

end CanonicalAccess
