import CanonicalAccess.Expr.Basic
import CanonicalAccess.Value.Equality

/-!
# Equality of expressions

Expressions are compared by structure, whatever their labels: equal kinds, operators, names,
stored types and members, equal payloads, and equal children in the same places. The comparison is
parameterised by the one of payloads, so that what hashing can see of an expression is an instance
of it too.
-/

set_option autoImplicit false

namespace CanonicalAccess.Expr

mutual

/-- Two expressions have the same structure, payloads being compared by `payload`. -/
def alike (payload : Value → Value → Bool) : Expr → Expr → Bool
  | absent, b => match b with
    | absent => true
    | _ => false
  | constant _ v t, b => match b with
    | constant _ w u => payload v w && t == u
    | _ => false
  | parameter _ n t, b => match b with
    | parameter _ m u => n == m && t == u
    | _ => false
  | member _ r p, b => match b with
    | member _ s q => alike payload r s && p == q
    | _ => false
  | index _ r p xs, b => match b with
    | index _ s q ys => alike payload r s && p == q && alikeAll payload xs ys
    | _ => false
  | assign _ x v, b => match b with
    | assign _ y w => alike payload x y && alike payload v w
    | _ => false
  | call _ r m xs, b => match b with
    | call _ s n ys => alike payload r s && m == n && alikeAll payload xs ys
    | _ => false
  | unary _ o x t, b => match b with
    | unary _ p y u => o == p && alike payload x y && t == u
    | _ => false
  | binary _ o x y t, b => match b with
    | binary _ p z w u => o == p && alike payload x z && alike payload y w && t == u
    | _ => false
  | conditional _ c x y, b => match b with
    | conditional _ d z w => alike payload c d && alike payload x z && alike payload y w
    | _ => false
  | lambda _ ps x, b => match b with
    | lambda _ qs y => alikeAll payload ps qs && alike payload x y
    | _ => false
  | bare _, b => match b with
    | bare _ => true
    | _ => false
termination_by structural a => a

def alikeAll (payload : Value → Value → Bool) : List Expr → List Expr → Bool
  | [], bs => bs.isEmpty
  | a :: as, bs => match bs with
    | b :: bs => alike payload a b && alikeAll payload as bs
    | [] => false
termination_by structural as => as

end

def equal (a b : Expr) : Bool := alike Value.same a b

/-- Two expressions are not equal. -/
def differs (a b : Expr) : Bool := !equal a b

/-- Two expressions hash alike: they are equal once payloads that cannot be hashed are left out. -/
def hashEqual (a b : Expr) : Bool := alike Value.sameHash a b

end CanonicalAccess.Expr
