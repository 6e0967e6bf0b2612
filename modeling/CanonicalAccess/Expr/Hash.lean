import CanonicalAccess.Expr.Equality
import CanonicalAccess.Value.Hash

/-!
# Hashes of expressions

An expression is hashed by the name of its kind and its fields, in alphabetical order; labels do
not take part. A payload without a hash is left out, and everything else has one.
-/

set_option autoImplicit false

namespace CanonicalAccess.Expr

variable {H : Type}

mutual

def hash (hasher : Hasher H) : Expr → H
  | absent => hasher.nothing
  | constant _ v t =>
    hasher.record Kind.constant.nodeName [("_type", hasher.type t), ("value", v.hash? hasher)]
  | parameter _ n t =>
    hasher.record Kind.parameter.nodeName [("_type", hasher.type t), ("name", hasher.text n)]
  | member _ r p =>
    hasher.record Kind.memberAccess.nodeName
      [("instance", hash hasher r), ("member", hasher.member p)]
  | index _ r p as =>
    hasher.record Kind.index.nodeName
      [("arguments", hasher.combine (hashes hasher as)), ("indexer", hasher.member p),
        ("instance", hash hasher r)]
  | assign _ t v =>
    hasher.record Kind.assign.nodeName [("target", hash hasher t), ("value", hash hasher v)]
  | call _ r m as =>
    hasher.record Kind.call.nodeName
      [("arguments", hasher.combine (hashes hasher as)), ("instance", hash hasher r),
        ("method", hasher.member m)]
  | unary _ o x t =>
    hasher.record Kind.unaryOp.nodeName
      [("_type", hasher.type t), ("operand", hash hasher x), ("operator", hasher.text o.title)]
  | binary _ o x y t =>
    hasher.record Kind.binaryOp.nodeName
      [("_type", hasher.type t), ("left", hash hasher x), ("operator", hasher.text o.title),
        ("right", hash hasher y)]
  | conditional _ c x y =>
    hasher.record Kind.conditional.nodeName
      [("if_false", hash hasher y), ("if_true", hash hasher x), ("test", hash hasher c)]
  | lambda _ ps b =>
    hasher.record Kind.lambda.nodeName
      [("body", hash hasher b), ("parameters", hasher.combine (hashes hasher ps))]
  | bare _ => hasher.record bareName []
termination_by structural e => e

def hashes (hasher : Hasher H) : List Expr → List H
  | [] => []
  | e :: es => hash hasher e :: hashes hasher es
termination_by structural es => es

end

end CanonicalAccess.Expr
