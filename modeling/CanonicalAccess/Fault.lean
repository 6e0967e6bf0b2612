import CanonicalAccess.Expr.Basic
import CanonicalAccess.Query

/-!
# Faults

The ways in which work on an expression can fail, by cause. One of them is a refusal: a call that
has the shape of an accessor call, though the metadata does not lead back from it to the method
called.
-/

set_option autoImplicit false

namespace CanonicalAccess

/-- Why a call cannot be put into canonical form. -/
inductive Reason where
  /-- Nothing answers the question that the call's shape poses. -/
  | unanswered (query : Query)
  /-- The property found is not backed by the method in that role. -/
  | notAccessor (found : Property) (role : Role)
deriving DecidableEq, Repr

/-- A refused call: the call as it stands in the tree, its method, and the reason. -/
structure Refusal where
  call : Expr
  method : Method
  reason : Reason
deriving Repr

/-- The causes of failure. -/
inductive Fault where
  /-- Nothing, or something of another sort, stands where a node or a member is needed. -/
  | missing
  /-- A setter call asks for index types although its method declares no parameters. -/
  | noParameter
  /-- An operation that is left open was asked for. -/
  | unsupported
  /-- A node of no particular kind has no type. -/
  | untyped
  /-- A node of no particular kind cannot be visited. -/
  | unvisitable
  | refused (refusal : Refusal)
deriving Repr

namespace Refusal

/-- What is wrong with the call. -/
def message (r : Refusal) : String :=
  "expression not supported: `" ++ r.method.name ++ "` is not " ++
    match r.reason with
    | .unanswered q => q.noun ++ " accessor"
    | .notAccessor p role => "the " ++ role.word ++ " accessor of `" ++ p.name ++ "`"

/-- What was found instead. -/
def note (r : Refusal) : String :=
  match r.reason with
  | .unanswered q => q.unansweredNote
  | .notAccessor p role =>
    "`" ++ p.declaringType.name ++ "." ++ p.name ++ "` " ++
      match p.accessor role with
      | .absent => "has no " ++ role.word ++ " accessor"
      | m => "is backed by " ++ m.describe

/-- Advice, where a property was found. -/
def help? (r : Refusal) : Option String :=
  match r.reason with
  | .unanswered _ => none
  | .notAccessor .. => some "hand-written methods named like accessors cannot be normalized"

end Refusal

end CanonicalAccess
