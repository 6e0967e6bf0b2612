import CanonicalAccess.Expr.Equality
import CanonicalAccess.Expr.Induction
import CanonicalAccess.Proofs.Payload

/-!
# Comparison of expressions, node by node

An expression is a node of its own, `frame`, with a payload if it is a constant and with parts. Two
expressions are alike exactly if their frames are the same, their payloads match and their parts
are alike (`alike_iff`). What follows for a comparison of expressions from the comparison of
payloads it uses is shown from this one description, whatever the kinds of nodes.
-/

set_option autoImplicit false

namespace CanonicalAccess.Expr

/-- All children of a node, the parameters of a lambda included. -/
def parts (e : Expr) : List Expr := e.operands ++ e.items

/-- A node without its label, its payload and its parts. -/
def frame : Expr → Expr
  | absent => absent
  | constant _ _ t => constant 0 .null t
  | parameter _ n t => parameter 0 n t
  | member _ _ p => member 0 absent p
  | index _ _ p _ => index 0 absent p []
  | assign _ _ _ => assign 0 absent absent
  | call _ _ m _ => call 0 absent m []
  | unary _ o _ t => unary 0 o absent t
  | binary _ o _ _ t => binary 0 o absent absent t
  | conditional _ _ _ _ => conditional 0 absent absent absent
  | lambda _ _ _ => lambda 0 [] absent
  | bare _ => bare 0

/-- The payload of a constant, as a list; no other node has one. -/
def ownPayload : Expr → List Value
  | constant _ v _ => [v]
  | _ => []

/-- Induction over all parts of a node. -/
@[elab_as_elim]
theorem parts_induction {motive : Expr → Prop}
    (step : ∀ e, (∀ c ∈ e.parts, motive c) → motive e) (e : Expr) : motive e := by
  induction e with
  | absent | constant | parameter | bare =>
    apply step
    simp [parts, operands, items]
  | member l r p ih | unary l o r t ih =>
    apply step
    simpa [parts, operands, items] using ih
  | index l r p as ihr ihas | call l r p as ihr ihas =>
    apply step
    simpa [parts, operands, items] using And.intro ihr ihas
  | assign l x y ihx ihy | binary l o x y t ihx ihy =>
    apply step
    simpa [parts, operands, items] using And.intro ihx ihy
  | conditional l c x y ihc ihx ihy =>
    apply step
    simpa [parts, operands, items] using And.intro ihc (And.intro ihx ihy)
  | lambda l ps b ihps ihb =>
    apply step
    simpa [parts, operands, items] using And.intro ihb ihps

variable {payload : Value → Value → Bool}

/-- Lists are alike exactly if their expressions are, one by one. -/
theorem alikeAll_iff_forall₂ {as bs : List Expr} :
    alikeAll payload as bs = true ↔ List.Forall₂ (fun a b => alike payload a b = true) as bs := by
  induction as generalizing bs with
  | nil => cases bs <;> simp [alikeAll]
  | cons a as ih => cases bs <;> simp [alikeAll, ih]

/-- Expressions are alike exactly if their frames are equal, and their payloads and their parts are
alike. -/
theorem alike_iff {a b : Expr} : alike payload a b = true ↔
    a.frame = b.frame ∧ List.Forall₂ (fun v w => payload v w = true) a.ownPayload b.ownPayload ∧
      List.Forall₂ (fun a b => alike payload a b = true) a.parts b.parts := by
  cases a <;> cases b <;>
    simp [alike, frame, ownPayload, parts, operands, items, alikeAll_iff_forall₂, and_comm,
      and_left_comm, and_assoc]

/-! ### What a comparison has from that of payloads -/

/-- A comparison that takes every payload for itself takes every expression for itself. -/
theorem alike_refl (h : ∀ v, payload v v = true) (e : Expr) : alike payload e e = true := by
  induction e using parts_induction with
  | step e ih =>
    exact alike_iff.mpr ⟨rfl, List.forall₂_same.mpr fun v _ => h v, List.forall₂_same.mpr ih⟩

/-- A comparison is symmetric if that of payloads is. -/
theorem alike_symm (h : ∀ v w, payload v w = true → payload w v = true) {a b : Expr}
    (hab : alike payload a b = true) : alike payload b a = true := by
  induction a using parts_induction generalizing b with
  | step a ih =>
    obtain ⟨hframe, hpayload, hparts⟩ := alike_iff.mp hab
    have hswapped := forall₂_imp_of_mem ih hparts
    exact alike_iff.mpr ⟨hframe.symm, (hpayload.imp h).flip, hswapped.flip⟩

/-- A comparison is transitive if that of payloads is. -/
theorem alike_trans (h : ∀ u v w, payload u v = true → payload v w = true → payload u w = true)
    {a b c : Expr} (hab : alike payload a b = true) (hbc : alike payload b c = true) :
    alike payload a c = true := by
  induction a using parts_induction generalizing b c with
  | step a ih =>
    obtain ⟨hframe, hpayload, hparts⟩ := alike_iff.mp hab
    obtain ⟨hframe', hpayload', hparts'⟩ := alike_iff.mp hbc
    exact alike_iff.mpr ⟨hframe.trans hframe',
      forall₂_trans_of_mem (fun u _ v w => h u v w) hpayload hpayload',
      forall₂_trans_of_mem ih hparts hparts'⟩

/-- A coarser comparison of payloads makes a coarser comparison of expressions. -/
theorem alike_mono {coarse : Value → Value → Bool}
    (h : ∀ v w, payload v w = true → coarse v w = true) {a b : Expr}
    (hab : alike payload a b = true) : alike coarse a b = true := by
  induction a using parts_induction generalizing b with
  | step a ih =>
    obtain ⟨hframe, hpayload, hparts⟩ := alike_iff.mp hab
    exact alike_iff.mpr ⟨hframe, hpayload.imp h, forall₂_imp_of_mem ih hparts⟩

end CanonicalAccess.Expr
