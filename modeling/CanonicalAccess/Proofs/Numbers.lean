import CanonicalAccess.Value.Equality
import Mathlib.Algebra.Field.Rat
import Mathlib.Algebra.GroupWithZero.Basic
import Mathlib.Tactic.FieldSimp

/-!
# What numbers stand for

A number is compared by exact integer arithmetic: two mantissas are brought to one exponent first.
What is compared that way is the rational number each stands for, so that equality of numbers is
equality of exact values, across integers and doubles.
-/

set_option autoImplicit false

namespace CanonicalAccess

/-- What a number stands for. One that is not a number stands for its label. -/
inductive ExactValue where
  | nan (label : Nat)
  | infinity (negative : Bool)
  | rational (q : ℚ)

/-- Two multiples of powers of two are compared at the lower of both exponents. -/
theorem scaled_eq_iff (a b e f : Int) :
    a * 2 ^ (e - f).toNat = b * 2 ^ (f - e).toNat ↔ (a : ℚ) * 2 ^ e = (b : ℚ) * 2 ^ f := by
  have hlow : ∀ x y : Int, (2 : ℚ) ^ x = 2 ^ (x - y).toNat * 2 ^ min x y := by
    intro x y
    rw [← zpow_natCast, ← zpow_add₀ (by norm_num)]
    congr 1
    omega
  have hpos : (2 : ℚ) ^ min e f ≠ 0 := zpow_ne_zero _ (by norm_num)
  rw [hlow e f, hlow f e, min_comm f e, ← mul_assoc, ← mul_assoc, mul_left_inj' hpos]
  exact_mod_cast Iff.rfl

namespace Double

def exactValue : Double → ExactValue
  | nan label => .nan label
  | infinity negative => .infinity negative
  | finite negative m e => .rational ((signed negative m : ℚ) * 2 ^ e)

/-- A sign goes with a product. -/
theorem signed_mul (negative : Bool) (m k : Nat) :
    signed negative (m * k) = signed negative m * k := by
  cases negative <;> simp [signed]

/-- Numbers compare equal exactly if they stand for the same. -/
theorem same_iff (d e : Double) : d.same e = true ↔ d.exactValue = e.exactValue := by
  cases d with
  | nan | infinity => cases e <;> simp [same, exactValue]
  | finite s m i =>
    cases e with
    | nan | infinity => simp [same, exactValue]
    | finite t n j =>
      rw [same, beq_iff_eq, signed_mul, signed_mul, exactValue, exactValue,
        ExactValue.rational.injEq, ← scaled_eq_iff]
      norm_cast

/-- A number compares equal to an integer exactly if it stands for it. -/
theorem isInt_iff (d : Double) (n : Int) :
    d.isInt n = true ↔ d.exactValue = .rational n := by
  cases d with
  | nan | infinity => simp [isInt, exactValue]
  | finite s m i =>
    have hscaled := scaled_eq_iff (signed s m) n i 0
    rw [sub_zero, zero_sub, zpow_zero, mul_one] at hscaled
    rw [isInt, beq_iff_eq, signed_mul, exactValue, ExactValue.rational.injEq, ← hscaled]
    norm_cast

end Double

namespace Value.Quantity

def exactValue : Quantity → ExactValue
  | whole n => .rational n
  | real d => d.exactValue

/-- Numbers are equal exactly if they stand for the same. -/
theorem same_iff (x y : Quantity) : x.same y = true ↔ x.exactValue = y.exactValue := by
  cases x with
  | whole a =>
    cases y with
    | whole b => simp [same, exactValue]
    | real e => rw [same, Double.isInt_iff, exactValue, exactValue, eq_comm]
  | real d =>
    cases y with
    | whole b => exact Double.isInt_iff d b
    | real e => exact Double.same_iff d e

end Value.Quantity

end CanonicalAccess
