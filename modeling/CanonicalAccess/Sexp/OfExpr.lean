import CanonicalAccess.Expr.Typing
import CanonicalAccess.Sexp.Layout

/-!
# Expressions as S-expressions

Every expression is written as a form that starts with a word for its kind. Members are written by
name, an absent child or member as `nil`. On request each form is followed by the static type of
its expression, except that a constant shows its type at all times.
-/

set_option autoImplicit false

namespace CanonicalAccess

namespace Sexp

/-- What stands for an absent child or member. -/
def nil : Sexp := word "nil"

/-- The payload of a constant. Truth values and nothing are words; payloads other than numbers and
texts are written as the text of their literals. -/
def ofValue : Value → Sexp
  | .null => word "null"
  | .bool b => word (if b then "true" else "false")
  | .int n => datum (.int n)
  | .float d => datum (.float d)
  | .str s => datum (.str s)
  | v => datum (.str v.literal)

def ofMember (m : Member) : Sexp :=
  match m.name? with
  | some name => datum (.str name)
  | none => nil

def ofType (t : Ty) : Sexp := word t.name

end Sexp

namespace Expr

def parameterName : Expr → Except Fault Sexp
  | parameter _ name _ => .ok (.datum (.str name))
  | _ => .error .missing

def parameterNames : List Expr → Except Fault (List Sexp)
  | [] => .ok []
  | p :: ps => do
    let name ← parameterName p
    let names ← parameterNames ps
    return name :: names

/-- The form of an expression with these elements, its static type added if types are shown. -/
def formOf (types : Bool) (e : Expr) (items : List Sexp) : Except Fault Sexp := do
  if types then
    let t ← e.type
    return .form (items ++ [.word ":type", .ofType t])
  else
    return .form items

mutual

def toSexp (types : Bool) : Expr → Except Fault Sexp
  | absent => .ok .nil
  | constant _ v t => .ok (.form [.word "constant", .ofValue v, .ofType t])
  | parameter l name t =>
    formOf types (.parameter l name t) [.word "parameter", .datum (.str name)]
  | member l receiver p => do
    let r ← toSexp types receiver
    formOf types (.member l receiver p) [.word "member", r, .ofMember p]
  | index l receiver p arguments => do
    let r ← toSexp types receiver
    let as ← toSexps types arguments
    formOf types (.index l receiver p arguments) [.word "index", r, .ofMember p, .form as]
  | assign l target value => do
    let t ← toSexp types target
    let v ← toSexp types value
    formOf types (.assign l target value) [.word "assign", t, v]
  | call l receiver m arguments => do
    let r ← toSexp types receiver
    let as ← toSexps types arguments
    formOf types (.call l receiver m arguments) [.word "call", r, .ofMember m, .form as]
  | unary l op operand t => do
    let x ← toSexp types operand
    formOf types (.unary l op operand t) [.word "unary-op", .word op.symbol, x]
  | binary l op left right t => do
    let x ← toSexp types left
    let y ← toSexp types right
    formOf types (.binary l op left right t) [.word "binary-op", .word op.symbol, x, y]
  | conditional l test ifTrue ifFalse => do
    let c ← toSexp types test
    let x ← toSexp types ifTrue
    let y ← toSexp types ifFalse
    formOf types (.conditional l test ifTrue ifFalse) [.word "if", c, x, y]
  | lambda l parameters body => do
    let names ← parameterNames parameters
    let b ← toSexp types body
    formOf types (.lambda l parameters body) [.word "lambda", .form names, b]
  | bare _ => .ok (.form [.word bareName, .word "..."])
termination_by structural e => e

def toSexps (types : Bool) : List Expr → Except Fault (List Sexp)
  | [] => .ok []
  | e :: es => do
    let s ← toSexp types e
    let ss ← toSexps types es
    return s :: ss
termination_by structural es => es

end

/-- The text of an expression, laid out over lines. -/
def serialize (types : Bool) (e : Expr) : Except Fault String :=
  (e.toSexp types).map Sexp.pretty

/-- The text of an expression as some other writer of S-expressions has it. -/
def serializeWith (write : Sexp → String) (types : Bool) (e : Expr) : Except Fault String :=
  (e.toSexp types).map write

/-- Whether an expression has a text, and why it has none, does not depend on the writer. -/
theorem serializeWith_eq_error_iff (write : Sexp → String) (types : Bool) (e : Expr)
    (fault : Fault) :
    e.serializeWith write types = .error fault ↔ e.serialize types = .error fault := by
  rw [serializeWith, serialize]
  cases e.toSexp types <;> simp [Except.map]

end Expr

end CanonicalAccess
