import CanonicalAccess.Proofs.Soundness
import CanonicalAccess.Proofs.Settlement

/-!
# What takes the place of accessor calls

The result of normalization, said without the walk: in place of every accessor call there is the
canonical node of its shape, with what became of the receiver and of the arguments, and every other
node is what it was but for its children. Which property a canonical node carries is left to a
relation, so that what is known about properties can be put in its place.
-/

set_option autoImplicit false

namespace CanonicalAccess

namespace Expr

/-- A tree and the tree in which every accessor call has given way to the canonical node of its
shape. The property that the node carries is one that `carries` allows for a call of the method with
that number of arguments. -/
inductive Replaced (carries : Method → Nat → Access → Property → Prop) : Expr → Expr → Prop where
  | kept {e : Expr} {cs : List Expr} (l : Label) (unshaped : e.isAccessorShaped = false)
      (children : List.Forall₂ (Replaced carries) e.children cs) :
      Replaced carries e (e.rebuild l cs)
  | settled {l : Label} {receiver receiver' : Expr} {m : Method} {arguments arguments' : List Expr}
      {a : Access} {name : String} {p : Property} (l' : Label)
      (shape : m.access? arguments.length = some (a, name))
      (carried : carries m arguments.length a p)
      (children : List.Forall₂ (Replaced carries) (receiver :: arguments)
        (receiver' :: arguments')) :
      Replaced carries (call l receiver (.method m) arguments)
        (Normalization.canonicalNode l' a p receiver' arguments')

/-- The accessor calls of a child are accessor calls of the tree. -/
theorem accessorCalls_subset_of_mem_children {e c : Expr} (h : c ∈ e.children) :
    c.accessorCalls ⊆ e.accessorCalls := by
  intro call hcall
  rw [accessorCalls_eq_flatMap_children]
  exact List.mem_append_left _ (List.mem_flatMap.mpr ⟨c, h, hcall⟩)

namespace Replaced

variable {carries carries' : Method → Nat → Access → Property → Prop} {e r : Expr}

/-- What is known of the properties that the calls of the tree lead to may be put in place of the
relation. -/
theorem imp (himp : ∀ {l : Label} {receiver : Expr} {m : Method} {arguments : List Expr}
      {a : Access} {p : Property}, call l receiver (.method m) arguments ∈ e.accessorCalls →
        carries m arguments.length a p → carries' m arguments.length a p)
    (h : Replaced carries e r) : Replaced carries' e r := by
  induction e using children_induction generalizing r with
  | step e ih =>
    -- Both cases come down to the children, whose calls are calls of the tree.
    have hchildren : ∀ {cs : List Expr}, List.Forall₂ (Replaced carries) e.children cs →
        List.Forall₂ (Replaced carries') e.children cs := by
      intro cs hcs
      have hmem : ∀ c ∈ e.children, c ∈ e.children := fun _ hc => hc
      refine ((List.forall₂_and_left _ _).mpr ⟨hmem, hcs⟩).imp ?_
      rintro c c' ⟨hc, h⟩
      refine ih c hc ?_ h
      intro l receiver m arguments a p hcall
      exact himp (accessorCalls_subset_of_mem_children hc hcall)
    cases h with
    | kept l unshaped children => exact .kept l unshaped (hchildren children)
    | @settled l receiver _ m arguments _ a name p l' shape carried children =>
      have hcall : call l receiver (.method m) arguments ∈
          (call l receiver (.method m) arguments).accessorCalls := by
        rw [accessorCalls_eq_flatMap_children, isAccessorShaped_call, shape]
        exact List.mem_append_right _ (List.mem_singleton_self _)
      exact .settled l' shape (himp hcall carried) (hchildren children)

/-- What an accessor call at the root has given way to. -/
theorem exists_canonicalNode {l : Label} {receiver : Expr} {m : Method} {arguments : List Expr}
    {a : Access} {name : String} (shape : m.access? arguments.length = some (a, name))
    (h : Replaced carries (call l receiver (.method m) arguments) r) :
    ∃ l' p receiver' arguments', r = Normalization.canonicalNode l' a p receiver' arguments' ∧
      carries m arguments.length a p := by
  cases h with
  | kept l unshaped children =>
    rw [isAccessorShaped_call, shape] at unshaped
    cases unshaped
  | @settled _ _ receiver' _ _ arguments' _ _ p l' shape' carried children =>
    rw [shape, Option.some.injEq, Prod.mk.injEq] at shape'
    obtain ⟨rfl, -⟩ := shape'
    exact ⟨l', p, receiver', arguments', rfl, carried⟩

/-- Every accessor call has given way to a node that carries a property. -/
theorem exists_carried (h : Replaced carries e r) {l : Label} {receiver : Expr} {m : Method}
    {arguments : List Expr} (hc : call l receiver (.method m) arguments ∈ e.accessorCalls) :
    ∃ a name p, m.access? arguments.length = some (a, name) ∧ carries m arguments.length a p := by
  induction e using children_induction generalizing r with
  | step e ih =>
    have hchildren : ∀ {cs : List Expr}, List.Forall₂ (Replaced carries) e.children cs →
        call l receiver (.method m) arguments ∈ e.children.flatMap accessorCalls →
        ∃ a name p, m.access? arguments.length = some (a, name) ∧
          carries m arguments.length a p := by
      intro cs hcs hmem
      obtain ⟨c, hc, hmem⟩ := List.mem_flatMap.mp hmem
      obtain ⟨i, hi, rfl⟩ := List.getElem_of_mem hc
      exact ih _ hc (hcs.get hi (hcs.length_eq ▸ hi)) hmem
    rw [accessorCalls_eq_flatMap_children, List.mem_append] at hc
    cases h with
    | kept l unshaped children =>
      rcases hc with hc | hc
      · exact hchildren children hc
      · simp [unshaped] at hc
    | @settled _ _ _ _ _ _ a name p l' shape carried children =>
      rcases hc with hc | hc
      · exact hchildren children hc
      · split at hc
        · obtain ⟨-, -, hm, rfl⟩ := call.inj (List.mem_singleton.mp hc)
          cases hm
          exact ⟨a, name, p, shape, carried⟩
        · cases hc

/-- What a walk of the normalizer hands back: the canonical nodes carry the properties to which the
metadata leads. -/
theorem of_visit {provider : Provider} {w w' : Work} (known : e.labelsBelow w.nextLabel = true)
    (h : (Normalization.normalizer provider).Visit e w r w') :
    Replaced (Method.LeadsTo provider) e r := by
  refine Normalization.normalizer_induction ?_ ?_ ?_ known h
  · exact @kept _ .absent [] 0 rfl .nil
  · intro e cs w r w' hk _ hshaped _ hfaithful hcs _ hrefit
    obtain ⟨l, rfl⟩ := exists_rebuild_of_refit hk hfaithful hrefit
    exact .kept l hshaped hcs
  · intro e cs w r w' _ _ hcs _ hsettled
    obtain ⟨shape, query, answer, backed⟩ := hsettled
    exact .settled _ shape ⟨_, _, shape, query, answer, backed⟩ hcs

end Replaced

end Expr

/-- Normalization replaces accessor calls by canonical nodes that carry the properties to which the
metadata leads. -/
theorem Normalization.replaced_of_normalize {provider : Provider} {t r : Expr} {w w' : Work}
    (known : t.labelsBelow w.nextLabel = true) (h : normalize provider t w = .ok r w') :
    Expr.Replaced (Method.LeadsTo provider) t r := by
  obtain ⟨w₁, haccept, -⟩ := normalize_eq_ok_iff.mp h
  obtain ⟨-, hvisit⟩ := Transformer.visit_of_accept haccept
  exact Expr.Replaced.of_visit (w := { w with settled := 0 }) known hvisit

end CanonicalAccess
