import CanonicalAccess.Normalization.Basic
import CanonicalAccess.Expr.Structure

/-!
# When the metadata leads back

An accessor call is in order if the question that its shape poses is answered by a property whose
accessor in that role is the very method called. A tree is normal if it holds no accessor calls.
-/

set_option autoImplicit false

namespace CanonicalAccess

/-- The metadata answers every question with a property or with nothing. -/
def Provider.Total (metadata : Provider) : Prop :=
  ∀ q, ∃ p, metadata q = .ok (.ofProperty? p)

/-- A registry answers every question with a property or with nothing. -/
theorem Provider.total_ofRegistry (r : Registry) : (Provider.ofRegistry r).Total := by
  intro q
  exact ⟨r.answer? q, rfl⟩

/-- The metadata leads from a call in this shape back to the method. -/
def Method.RoundTrips (metadata : Provider) (m : Method) (a : Access) (name : String) : Prop :=
  ∃ q p, m.query? a name = some q ∧ metadata q = .ok (.property p) ∧
    p.accessor a.role = .method m

namespace Expr

/-- An expression is no accessor call, or one from which the metadata leads back to its method. -/
def RoundTrips (metadata : Provider) : Expr → Prop
  | call _ _ (.method m) arguments =>
    ∀ a name, m.access? arguments.length = some (a, name) → m.RoundTrips metadata a name
  | _ => True

/-- If an expression is a call that writes an indexer, its method declares a parameter for the
value. -/
def DeclaresValue : Expr → Prop
  | call _ _ (.method m) arguments =>
    ∀ name, m.access? arguments.length = some (.writeIndexer, name) → m.parameters ≠ []
  | _ => True

/-- The accessor calls of a tree, in the order in which they are settled. -/
def accessorCalls (e : Expr) : List Expr := e.nodes.filter isAccessorShaped

/-- A tree without accessor calls. -/
def Normal (e : Expr) : Prop := ∀ c ∈ e.nodes, c.isAccessorShaped = false

instance (e : Expr) : Decidable e.Normal :=
  inferInstanceAs (Decidable (∀ c ∈ e.nodes, c.isAccessorShaped = false))

/-- The records that settling an accessor call leaves. -/
def settledEvent? : Expr → Option Event
  | call _ _ (.method m) arguments =>
    (m.access? arguments.length).map fun (a, _) => .replaced m.name a.resultKind
  | _ => none

/-- A tree is normal exactly if it has no accessor calls. -/
theorem normal_iff_accessorCalls_eq_nil (e : Expr) : e.Normal ↔ e.accessorCalls = [] := by
  simp [Normal, accessorCalls]

end Expr

end CanonicalAccess
