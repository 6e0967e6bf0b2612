import CanonicalAccess.Proofs.FirstFault
import CanonicalAccess.Registry.History

/-!
# Refusals and one other fault

Where a registry answers, a complete tree is normalized or a call in it is refused, with one
exception. A call with an index and a value, through a special method that is named like a setter
but declares no parameters, is in the shape of a write to an indexer and leaves no value type to ask
for. If such a call comes first among those at fault, the run fails with `Fault.noParameter`.
-/

set_option autoImplicit false

namespace CanonicalAccess

/-- The first accessor call at fault writes an indexer through a method without parameters. -/
def Expr.LacksParameterFirst (provider : Provider) (t : Expr) : Prop :=
  ∃ before c after, t.accessorCalls = before ++ c :: after ∧
    (∀ d ∈ before, d.RoundTrips provider) ∧ ¬ c.DeclaresValue

/-- Where a registry answers, a complete tree is normalized or a call in it is refused, unless the
first accessor call at fault lacks a parameter; then the run fails for want of it. -/
theorem normalize_ok_or_refused (r : Registry) {t : Expr} (complete : t.complete = true) (w : Work) :
    (¬ t.LacksParameterFirst (Provider.ofRegistry r) →
      (∃ t' w', normalize (Provider.ofRegistry r) t w = .ok t' w') ∨
        ∃ refusal w', normalize (Provider.ofRegistry r) t w = .error (.refused refusal) w') ∧
    (t.LacksParameterFirst (Provider.ofRegistry r) →
      ∃ w', normalize (Provider.ofRegistry r) t w = .error .noParameter w') := by
  have total := Provider.total_ofRegistry r
  have hdecided := @Normalization.decidedBy_normalize (Provider.ofRegistry r) t complete w
  unfold DecidedBy at hdecided
  constructor
  · intro hlacks
    cases hfault : t.accessorCalls.findSome? fun c => c.fault? (Provider.ofRegistry r) with
    | none =>
      rw [hfault] at hdecided
      exact .inl hdecided
    | some fault =>
      rw [hfault] at hdecided
      obtain ⟨before, c, after, hcalls, hc, hbefore⟩ := List.findSome?_eq_some_iff.mp hfault
      -- The first call at fault declares a value, so a question is posed and answered.
      have declares : c.DeclaresValue := by
        by_contra hundeclared
        refine hlacks ⟨before, c, after, hcalls, ?_, hundeclared⟩
        intro d hd
        exact Expr.fault?_eq_none_iff.mp (hbefore d hd)
      obtain ⟨refusal, rfl, -, -⟩ := Refusal.due_of_fault? total declares hc
      exact .inr ⟨refusal, hdecided⟩
  · rintro ⟨before, c, after, hcalls, hbefore, hundeclared⟩
    have hfault : t.accessorCalls.findSome? (fun c => c.fault? (Provider.ofRegistry r)) =
        some .noParameter := by
      rw [List.findSome?_eq_some_iff]
      refine ⟨before, c, after, hcalls, Expr.fault?_of_not_declaresValue hundeclared, ?_⟩
      intro d hd
      exact Expr.fault?_eq_none_iff.mpr (hbefore d hd)
    rw [hfault] at hdecided
    exact hdecided

/-! A grid with a special method that is named like a setter but takes no parameters, a call to it
with an index and a value, and a call of it alone. -/

namespace Grid

def unparameterized : Catalogue :=
  (Catalogue.start 0).run
    [.define (.method "Grid"
      { name := "set_Item", parameters := [], returns := .void, special := true })]

def clear : Method := ⟨0, "set_Item", type, [], .void, true, false⟩

def clearFirst : Expr := .call 3 grid (.method clear) [row, first]

def clearAll : Expr := .call 3 grid (.method clear) []

/-- A call with two arguments lacks a parameter in the setter. -/
theorem lacksParameterFirst_clearFirst :
    clearFirst.LacksParameterFirst (Provider.ofRegistry unparameterized.registry) := by
  refine ⟨[], clearFirst, [], rfl, by simp, ?_⟩
  intro declares
  exact declares "Item" rfl rfl

/-- A call without arguments is no accessor call, and nothing is at fault. -/
theorem not_lacksParameterFirst_clearAll :
    ¬ clearAll.LacksParameterFirst (Provider.ofRegistry unparameterized.registry) := by
  rintro ⟨before, c, after, hcalls, -⟩
  have hnone : clearAll.accessorCalls = [] := rfl
  rw [hnone] at hcalls
  simp at hcalls

end Grid

/-- Of a setter without parameters, the call with two arguments ends in the one exception and the
call without arguments does not. -/
theorem normalize_ok_or_refused_clear :
    Grid.clearFirst.complete = true ∧ Grid.clearAll.complete = true ∧
      Grid.clear ∈ Grid.unparameterized.registry.methods ∧
      (∃ w', normalize (Provider.ofRegistry Grid.unparameterized.registry) Grid.clearFirst
        (Work.start 4) = .error .noParameter w') ∧
      ((∃ t' w', normalize (Provider.ofRegistry Grid.unparameterized.registry) Grid.clearAll
        (Work.start 4) = .ok t' w') ∨
        ∃ refusal w', normalize (Provider.ofRegistry Grid.unparameterized.registry) Grid.clearAll
          (Work.start 4) = .error (.refused refusal) w') := by
  refine ⟨rfl, rfl, by decide, ?_, ?_⟩
  · exact (normalize_ok_or_refused _ rfl _).2 Grid.lacksParameterFirst_clearFirst
  · exact (normalize_ok_or_refused _ rfl _).1 Grid.not_lacksParameterFirst_clearAll

/-- Not every complete tree is normalized or refused where a reachable registry answers. -/
theorem not_forall_ok_or_refused :
    ¬ ∀ c : Catalogue, c.Reachable → ∀ t : Expr, t.complete = true → ∀ w : Work,
      (∃ t' w', normalize (Provider.ofRegistry c.registry) t w = .ok t' w') ∨
        ∃ refusal w', normalize (Provider.ofRegistry c.registry) t w =
          .error (.refused refusal) w' := by
  intro h
  have hreachable : Grid.unparameterized.Reachable := (Catalogue.Reachable.start 0).run _
  have hrun : normalize (Provider.ofRegistry Grid.unparameterized.registry) Grid.clearFirst
      (Work.start 4) = .error .noParameter (Work.start 4) := rfl
  rcases h _ hreachable Grid.clearFirst rfl (Work.start 4) with ⟨t', w', hok⟩ | ⟨refusal, w', herror⟩
  · rw [hrun] at hok
    cases hok
  · rw [hrun] at herror
    cases herror

end CanonicalAccess
