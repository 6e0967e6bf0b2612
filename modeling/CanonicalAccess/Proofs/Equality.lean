import CanonicalAccess.Expr.Typing
import CanonicalAccess.Proofs.Hashing
import CanonicalAccess.Proofs.Unlabelled

/-!
# Equality of expressions is sound

Equality of expressions is an equivalence, and expressions that are equal cannot be told apart by
their hash, whatever the hasher, nor by their type: they have the same one, or none of them has one
and for the same reason (`equal_lawful`).
-/

set_option autoImplicit false

namespace CanonicalAccess

namespace Expr

variable {payload : Value → Value → Bool}

/-- Of two expressions that are alike, both are there or neither is. -/
theorem isAbsent_eq_of_alike {a b : Expr} (h : alike payload a b = true) :
    a.isAbsent = b.isAbsent := by
  cases a <;> cases b <;> first | rfl | cases h

/-- Expressions that are alike have the same type, or fail to have one for the same reason: a type
is never taken from a payload. -/
theorem type_eq_of_alike {a b : Expr} (h : alike payload a b = true) : a.type = b.type := by
  induction a generalizing b with
  | assign l t v ih _ =>
    cases b with
    | assign l' t' v' =>
      rw [alike, Bool.and_eq_true] at h
      rw [type, type, ih h.1]
    | _ => cases h
  | conditional l c x y _ ih _ =>
    cases b with
    | conditional l' c' x' y' =>
      rw [alike, Bool.and_eq_true, Bool.and_eq_true] at h
      rw [type, type, ih h.1.2]
    | _ => cases h
  | lambda l ps x _ ih =>
    cases b with
    | lambda l' qs y =>
      rw [alike, Bool.and_eq_true] at h
      rw [type, type, isAbsent_eq_of_alike h.2, ih h.2]
    | _ => cases h
  | _ => cases b <;> simp_all [alike, type]

/-- Equality of expressions is reflexive, symmetric and transitive. -/
theorem equal_equivalence : Equivalence fun a b : Expr => a.equal b = true where
  refl := equal_refl
  symm h := @alike_symm Value.same (fun _ _ => Value.Same.symm) _ _ h
  trans h h' := @alike_trans Value.same (fun _ _ _ => Value.Same.trans) _ _ _ h h'

end Expr

/-- Equality of expressions is an equivalence, and to differ is not to be equal. Equal expressions
have equal hashes under every hasher, and the same type or none for the same reason. -/
theorem equal_lawful :
    (Equivalence fun a b : Expr => a.equal b = true) ∧
      ∀ a b : Expr, (a.differs b = true ↔ ¬ a.equal b = true) ∧
        (a.equal b = true →
          (∀ {H : Type} (hasher : Hasher H), a.hash hasher = b.hash hasher) ∧ a.type = b.type) := by
  refine ⟨Expr.equal_equivalence, fun a b => ⟨?_, fun h => ⟨?_, Expr.type_eq_of_alike h⟩⟩⟩
  · unfold Expr.differs
    rw [Bool.not_eq_true', Bool.not_eq_true]
  · exact Expr.hashEqual_iff_forall_hash.mp (Expr.hashEqual_of_equal h)

namespace Sample

/-- A call without a method, with a dictionary and a tuple that has no hash for arguments. -/
def unresolved : Expr :=
  .call 3 .absent .absent
    [.constant 1 (.dict [(.str "a", .bool true), (.int 2, .list [.null])]) .object,
      .constant 2 (.tuple [.int 0, .list []]) .object]

/-- The same call with other labels, the entries of the dictionary in another order and integers
for truth values and the reverse. -/
def unresolvedAgain : Expr :=
  .call 6 .absent .absent
    [.constant 4 (.dict [(.int 2, .list [.null]), (.str "a", .int 1)]) .object,
      .constant 5 (.tuple [.bool false, .list []]) .object]

end Sample

/-- Two spellings of a call are equal both ways, hash alike and lack a type for the same reason. -/
theorem equal_lawful_unresolved :
    Sample.unresolved.equal Sample.unresolvedAgain = true ∧
      Sample.unresolvedAgain.equal Sample.unresolved = true ∧
      Sample.unresolved.differs Sample.unresolvedAgain = false ∧
      (∀ {H : Type} (hasher : Hasher H),
        Sample.unresolved.hash hasher = Sample.unresolvedAgain.hash hasher) ∧
      Sample.unresolvedAgain.type = .error .missing := by
  have h : Sample.unresolved.equal Sample.unresolvedAgain = true := by decide
  obtain ⟨hequivalence, hlawful⟩ := equal_lawful
  obtain ⟨hdiffers, hequal⟩ := hlawful Sample.unresolved Sample.unresolvedAgain
  obtain ⟨hhash, htype⟩ := hequal h
  have hsame : Sample.unresolved.differs Sample.unresolvedAgain = false := by
    rw [← Bool.not_eq_true, hdiffers, not_not]
    exact h
  exact ⟨h, hequivalence.symm h, hsame, hhash, htype ▸ rfl⟩

end CanonicalAccess
