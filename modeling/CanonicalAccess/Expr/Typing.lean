import CanonicalAccess.Expr.Induction
import CanonicalAccess.Fault

/-!
# Static types of expressions

Constants, parameters and operations store their type; an access has the type of its property, a
call the return type of its method. An assignment, a conditional and a lambda take the type of
their target, their first branch and their body.
-/

set_option autoImplicit false

namespace CanonicalAccess

/-- The type of an access through a member, which has to be a property. -/
def Member.accessType : Member → Except Fault Ty
  | .property p => .ok p.type
  | _ => .error .missing

/-- The type of a call through a member, which has to be a method. -/
def Member.callType : Member → Except Fault Ty
  | .method m => .ok m.returns
  | _ => .error .missing

namespace Expr

/-- The static type of an expression. A lambda without a body returns nothing. -/
def type : Expr → Except Fault Ty
  | absent => .error .missing
  | constant _ _ t => .ok t
  | parameter _ _ t => .ok t
  | member _ _ p => p.accessType
  | index _ _ p _ => p.accessType
  | assign _ target _ => target.type
  | call _ _ m _ => m.callType
  | unary _ _ _ t => .ok t
  | binary _ _ _ _ t => .ok t
  | conditional _ _ ifTrue _ => ifTrue.type
  | lambda _ _ body => if body.isAbsent then .ok .void else body.type
  | bare _ => .error .untyped

/-- The node that a type is taken from: the first on the way down through targets of assignments,
first branches and bodies that is of another kind, or a lambda without a body. -/
def typeSource : Expr → Expr
  | assign _ target _ => target.typeSource
  | conditional _ _ ifTrue _ => ifTrue.typeSource
  | lambda l ps body => if body.isAbsent then lambda l ps body else body.typeSource
  | e => e

/-- A type is that of the node it is taken from. -/
theorem type_typeSource (e : Expr) : e.typeSource.type = e.type := by
  induction e with
  | assign l t v iht _ => simpa [typeSource, type] using iht
  | conditional l c x y _ ihx _ => simpa [typeSource, type] using ihx
  | lambda l ps b _ ihb =>
    by_cases h : b.isAbsent = true
    · simp [typeSource, type, h]
    · simpa [typeSource, type, h] using ihb
  | _ => rfl

/-- The type of an operation: the one given, or else the type of its first operand. -/
def typeOr (given : Option Ty) (operand : Expr) : Except Fault Ty :=
  match given with
  | some t => .ok t
  | none => operand.type

end Expr

end CanonicalAccess
