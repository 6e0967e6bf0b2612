import CanonicalAccess.Proofs.Children
import CanonicalAccess.Proofs.Comparison

/-!
# Trees without labels

Equality of expressions does not look at labels. Two trees that agree once all labels are taken
away are the same tree up to the identity of nodes; in particular they are equal, and each may
stand for the other in any comparison.
-/

set_option autoImplicit false

namespace CanonicalAccess.Expr

mutual

/-- The expression with all labels taken away. -/
def unlabelled : Expr → Expr
  | absent => absent
  | constant _ v t => constant 0 v t
  | parameter _ n t => parameter 0 n t
  | member _ r p => member 0 (unlabelled r) p
  | index _ r p as => index 0 (unlabelled r) p (unlabelledAll as)
  | assign _ t v => assign 0 (unlabelled t) (unlabelled v)
  | call _ r m as => call 0 (unlabelled r) m (unlabelledAll as)
  | unary _ o x t => unary 0 o (unlabelled x) t
  | binary _ o x y t => binary 0 o (unlabelled x) (unlabelled y) t
  | conditional _ c x y => conditional 0 (unlabelled c) (unlabelled x) (unlabelled y)
  | lambda _ ps b => lambda 0 (unlabelledAll ps) (unlabelled b)
  | bare _ => bare 0
termination_by structural e => e

def unlabelledAll : List Expr → List Expr
  | [] => []
  | e :: es => unlabelled e :: unlabelledAll es
termination_by structural es => es

end

/-- Lists are alike without labels exactly if they are with them. -/
theorem alikeAll_unlabelledAll {payload : Value → Value → Bool} {as : List Expr}
    (h : ∀ a ∈ as, ∀ b, alike payload a.unlabelled b.unlabelled = alike payload a b)
    (bs : List Expr) :
    alikeAll payload (unlabelledAll as) (unlabelledAll bs) = alikeAll payload as bs := by
  induction as generalizing bs with
  | nil => cases bs <;> rfl
  | cons a as ih =>
    cases bs with
    | nil => rfl
    | cons b bs =>
      rw [unlabelledAll, unlabelledAll, alikeAll, alikeAll, h a (by simp) b,
        ih (fun a' ha' => h a' (by simp [ha'])) bs]

/-- No comparison of expressions looks at labels. -/
theorem alike_unlabelled (payload : Value → Value → Bool) (a b : Expr) :
    alike payload a.unlabelled b.unlabelled = alike payload a b := by
  induction a generalizing b with
  | absent | constant _ _ _ | parameter _ _ _ | bare _ =>
    cases b <;> rfl
  | member l r p ihr => cases b <;> simp [unlabelled, alike, ihr]
  | index l r p as ihr ihas =>
    cases b <;> simp [unlabelled, alike, ihr, alikeAll_unlabelledAll ihas]
  | assign l t v iht ihv => cases b <;> simp [unlabelled, alike, iht, ihv]
  | call l r m as ihr ihas =>
    cases b <;> simp [unlabelled, alike, ihr, alikeAll_unlabelledAll ihas]
  | unary l o x t ihx => cases b <;> simp [unlabelled, alike, ihx]
  | binary l o x y t ihx ihy => cases b <;> simp [unlabelled, alike, ihx, ihy]
  | conditional l c x y ihc ihx ihy => cases b <;> simp [unlabelled, alike, ihc, ihx, ihy]
  | lambda l ps b ihps ihb =>
    cases b <;> simp [unlabelled, alike, alikeAll_unlabelledAll ihps, ihb]

/-- Every expression equals itself. -/
theorem equal_refl (e : Expr) : e.equal e = true := alike_refl Value.same_refl e

/-- Trees that agree up to labels may stand for one another in a comparison. -/
theorem equal_congr {a a' b b' : Expr} (ha : a.unlabelled = a'.unlabelled)
    (hb : b.unlabelled = b'.unlabelled) : a.equal b = a'.equal b' := by
  unfold equal
  rw [← alike_unlabelled, ha, hb, alike_unlabelled]

/-- Expressions that agree up to labels are equal. -/
theorem equal_of_unlabelled_eq {a b : Expr} (h : a.unlabelled = b.unlabelled) :
    a.equal b = true := by
  rw [equal_congr h rfl]
  exact equal_refl b

end CanonicalAccess.Expr
