import CanonicalAccess.Expr.Basic

/-!
# Induction over expressions

The induction principle for expressions: a statement holds of an expression if it holds of each
kind of node whenever it holds of all its children, those in its list included.
-/

set_option autoImplicit false

namespace CanonicalAccess.Expr

/-- Induction over the children of a node, a list of children being given member by member. -/
@[elab_as_elim, induction_eliminator]
theorem induction {motive : Expr → Prop}
    (absent : motive .absent)
    (constant : ∀ label value type, motive (.constant label value type))
    (parameter : ∀ label name type, motive (.parameter label name type))
    (member : ∀ label receiver property, motive receiver →
      motive (.member label receiver property))
    (index : ∀ label receiver indexer arguments, motive receiver →
      (∀ a ∈ arguments, motive a) → motive (.index label receiver indexer arguments))
    (assign : ∀ label target value, motive target → motive value →
      motive (.assign label target value))
    (call : ∀ label receiver method arguments, motive receiver →
      (∀ a ∈ arguments, motive a) → motive (.call label receiver method arguments))
    (unary : ∀ label op operand type, motive operand → motive (.unary label op operand type))
    (binary : ∀ label op left right type, motive left → motive right →
      motive (.binary label op left right type))
    (conditional : ∀ label test ifTrue ifFalse, motive test → motive ifTrue → motive ifFalse →
      motive (.conditional label test ifTrue ifFalse))
    (lambda : ∀ label parameters body, (∀ p ∈ parameters, motive p) → motive body →
      motive (.lambda label parameters body))
    (bare : ∀ label, motive (.bare label)) (e : Expr) : motive e := by
  refine @Expr.rec motive (fun es => ∀ e ∈ es, motive e) absent constant parameter member index
    assign call unary binary conditional lambda bare ?_ ?_ e
  · intro e he
    exact absurd he (List.not_mem_nil)
  · intro e es he hes x hx
    rcases List.mem_cons.mp hx with rfl | hx
    · exact he
    · exact hes x hx

end CanonicalAccess.Expr
