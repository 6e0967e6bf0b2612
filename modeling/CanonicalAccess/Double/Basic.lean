/-!
# Double-precision numbers

A number of the 64-bit binary format is not a number, an infinity, or `± m · 2 ^ e` with a
mantissa of at most 53 bits. Everything here is exact arithmetic on natural numbers, so that what
is printed and compared can be reasoned about; no machine arithmetic is used.

A value that is not a number carries a label: it is equal to nothing but itself, and the label
says which one it is.
-/

set_option autoImplicit false

namespace CanonicalAccess

/-- A double-precision number. A finite one stands for `± mantissa · 2 ^ exponent`. -/
inductive Double where
  | nan (label : Nat)
  | infinity (negative : Bool)
  | finite (negative : Bool) (mantissa : Nat) (exponent : Int)
deriving DecidableEq, Repr, Inhabited

namespace Double

def minExponent : Int := -1074

def signed (negative : Bool) (magnitude : Nat) : Int :=
  if negative then -(magnitude : Int) else magnitude

/-- Two numbers compare equal: the same infinity, the same label, or finite numbers of the same
exact value, so that both zeros are equal. -/
def same : Double → Double → Bool
  | nan a, nan b => a == b
  | infinity a, infinity b => a == b
  | finite s m e, finite t n f =>
    signed s (m * Nat.pow 2 (e - f).toNat) == signed t (n * Nat.pow 2 (f - e).toNat)
  | _, _ => false

def isInt : Double → Int → Bool
  | finite s m e, i => signed s (m * Nat.pow 2 e.toNat) == i * Int.pow 2 (-e).toNat
  | _, _ => false

end Double

end CanonicalAccess
