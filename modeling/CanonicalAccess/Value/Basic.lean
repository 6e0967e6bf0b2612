import CanonicalAccess.Ty
import CanonicalAccess.Double.Basic

/-!
# Constant payloads

The payload of a constant is arbitrary data: nothing, a truth value, an integer of any size, a
double, text, bytes, or a list, a tuple or a dictionary of such. A dictionary keeps its entries in
the order of their first insertion.
-/

set_option autoImplicit false

namespace CanonicalAccess

/-- Data that a constant may carry. -/
inductive Value where
  | null
  | bool (b : Bool)
  | int (n : Int)
  | float (d : Double)
  | str (s : String)
  | bytes (bs : List UInt8)
  | list (items : List Value)
  | tuple (items : List Value)
  | dict (entries : List (Value × Value))
deriving Repr, Inhabited

namespace Value

/-- The static type of a constant whose type is not given. Every integer is an `i32`, whatever its
size. -/
def type : Value → Ty
  | bool _ => .bool
  | int _ => .i32
  | float _ => .f64
  | str _ => .str
  | _ => .object

mutual

/-- Whether a payload takes part in hashing: lists and dictionaries do not, nor does a tuple that
holds one. -/
def hashable : Value → Bool
  | list _ => false
  | dict _ => false
  | tuple items => allHashable items
  | _ => true
termination_by structural v => v

def allHashable : List Value → Bool
  | [] => true
  | v :: vs => hashable v && allHashable vs
termination_by structural vs => vs

end

end Value

end CanonicalAccess
