import CanonicalAccess.Member
import CanonicalAccess.Value.Basic

/-!
# Expressions

Expression trees, in which properties and indexers can be read and written either through calls to
their accessors or through the canonical forms for member access, indexing and assignment.

Subtrees are shared, and it matters which ones: a transformer has to hand back an untouched
subtree itself. So every node carries a label, its identity, and two nodes are the same node
exactly when their labels agree. A child may be absent; an absent receiver is that of a static
call.
-/

set_option autoImplicit false

namespace CanonicalAccess

inductive UnaryOp where
  | neg
  | not
  | convert
deriving DecidableEq, Repr, Inhabited

namespace UnaryOp

def all : List UnaryOp := [.neg, .not, .convert]

def symbol : UnaryOp → String
  | neg => "-"
  | not => "!"
  | convert => "convert"

def title : UnaryOp → String
  | neg => "NEG"
  | not => "NOT"
  | convert => "CONVERT"

def ofSymbol? (s : String) : Option UnaryOp := all.find? fun op => op.symbol == s

/-- An operator is found again by its symbol. -/
theorem ofSymbol?_symbol (op : UnaryOp) : ofSymbol? op.symbol = some op := by
  cases op <;> decide

end UnaryOp

inductive BinaryOp where
  | add | sub | mul | div | mod
  | eq | ne | lt | le | gt | ge
  | and | or
deriving DecidableEq, Repr, Inhabited

namespace BinaryOp

def all : List BinaryOp :=
  [.add, .sub, .mul, .div, .mod, .eq, .ne, .lt, .le, .gt, .ge, .and, .or]

def symbol : BinaryOp → String
  | add => "+"
  | sub => "-"
  | mul => "*"
  | div => "/"
  | mod => "%"
  | eq => "=="
  | ne => "!="
  | lt => "<"
  | le => "<="
  | gt => ">"
  | ge => ">="
  | and => "&&"
  | or => "||"

def title : BinaryOp → String
  | add => "ADD"
  | sub => "SUB"
  | mul => "MUL"
  | div => "DIV"
  | mod => "MOD"
  | eq => "EQ"
  | ne => "NE"
  | lt => "LT"
  | le => "LE"
  | gt => "GT"
  | ge => "GE"
  | and => "AND"
  | or => "OR"

def ofSymbol? (s : String) : Option BinaryOp := all.find? fun op => op.symbol == s

/-- An operator is found again by its symbol; no two share one. -/
theorem ofSymbol?_symbol (op : BinaryOp) : ofSymbol? op.symbol = some op := by
  cases op <;> decide

end BinaryOp

/-- The identity of a node. -/
abbrev Label := Nat

/-- An expression, or an absent child. -/
inductive Expr where
  /-- No expression at all. -/
  | absent
  | constant (label : Label) (value : Value) (type : Ty)
  /-- A named parameter, of an enclosing lambda or free. -/
  | parameter (label : Label) (name : String) (type : Ty)
  /-- Access to a property of the receiver. -/
  | member (label : Label) (receiver : Expr) (property : Member)
  /-- Access to an indexer of the receiver. -/
  | index (label : Label) (receiver : Expr) (indexer : Member) (arguments : List Expr)
  | assign (label : Label) (target value : Expr)
  | call (label : Label) (receiver : Expr) (method : Member) (arguments : List Expr)
  | unary (label : Label) (op : UnaryOp) (operand : Expr) (type : Ty)
  | binary (label : Label) (op : BinaryOp) (left right : Expr) (type : Ty)
  | conditional (label : Label) (test ifTrue ifFalse : Expr)
  /-- A function. Its parameters are declarations and not operands. -/
  | lambda (label : Label) (parameters : List Expr) (body : Expr)
  /-- A node of no particular kind: it has no type and nothing visits it. -/
  | bare (label : Label)
deriving Repr, Inhabited

/-- The kinds of expression that can be visited. -/
inductive Kind where
  | constant
  | parameter
  | memberAccess
  | index
  | assign
  | call
  | unaryOp
  | binaryOp
  | conditional
  | lambda
deriving DecidableEq, Repr, Inhabited

namespace Kind

def nodeName : Kind → String
  | constant => "ConstantIR"
  | parameter => "ParameterIR"
  | memberAccess => "MemberAccessIR"
  | index => "IndexIR"
  | assign => "AssignIR"
  | call => "CallIR"
  | unaryOp => "UnaryOpIR"
  | binaryOp => "BinaryOpIR"
  | conditional => "ConditionalIR"
  | lambda => "LambdaIR"

end Kind

namespace Expr

/-- The name of a node of no particular kind. -/
def bareName : String := "ExpressionIR"

/-- The identity of a node; an absent child has none. -/
def label? : Expr → Option Label
  | absent => none
  | constant l .. | parameter l .. | member l .. | index l .. | assign l .. | call l .. | unary l ..
  | binary l .. | conditional l .. | lambda l .. | bare l => some l

/-- The kind of a node. An absent child is no node, and a bare one has no kind. -/
def kind? : Expr → Option Kind
  | absent | bare _ => none
  | constant .. => some .constant
  | parameter .. => some .parameter
  | member .. => some .memberAccess
  | index .. => some .index
  | assign .. => some .assign
  | call .. => some .call
  | unary .. => some .unaryOp
  | binary .. => some .binaryOp
  | conditional .. => some .conditional
  | lambda .. => some .lambda

/-- Whether nothing stands here. -/
def isAbsent : Expr → Bool
  | absent => true
  | _ => false

/-- Two expressions are the same node, or both absent. -/
def same (a b : Expr) : Bool := a.label? == b.label?

/-- Every expression is the same as itself. -/
@[simp] theorem same_refl (e : Expr) : e.same e = true := by
  simp [same]

/-- Two lists hold the same nodes in the same order. -/
def sameAll : List Expr → List Expr → Bool
  | [], [] => true
  | a :: as, b :: bs => a.same b && sameAll as bs
  | _, _ => false

/-- Every list of expressions holds the same nodes as itself. -/
@[simp] theorem sameAll_refl (es : List Expr) : sameAll es es = true := by
  induction es with
  | nil => rfl
  | cons e es ih => simp [sameAll, ih]

/-- The single children of a node, in order. Those of the list it may have are its `items`. -/
def operands : Expr → List Expr
  | absent | constant .. | parameter .. | bare _ => []
  | member _ receiver _ => [receiver]
  | index _ receiver _ _ => [receiver]
  | assign _ target value => [target, value]
  | call _ receiver _ _ => [receiver]
  | unary _ _ operand _ => [operand]
  | binary _ _ left right _ => [left, right]
  | conditional _ test ifTrue ifFalse => [test, ifTrue, ifFalse]
  | lambda _ _ body => [body]

/-- The arguments of a call or an index, and the parameters of a lambda. -/
def items : Expr → List Expr
  | index _ _ _ arguments => arguments
  | call _ _ _ arguments => arguments
  | lambda _ parameters _ => parameters
  | _ => []

end Expr

end CanonicalAccess
