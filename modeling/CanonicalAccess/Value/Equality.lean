import CanonicalAccess.Value.Basic

/-!
# Equality of payloads

Payloads are compared by what they denote. Truth values, integers and doubles are all numbers and
are equal when their exact values are, so that `true`, `1` and `1.0` are equal and both zeros are.
Lists and tuples are compared item by item and never equal each other; dictionaries are equal when
each entry of either has an equal entry in the other, whatever the order. A double that is not a
number equals only itself.
-/

set_option autoImplicit false

namespace CanonicalAccess.Value

/-- A payload seen as a number. -/
inductive Quantity where
  | whole (n : Int)
  | real (d : Double)
deriving DecidableEq, Repr

/-- The number that a payload is, if it is one. -/
def quantity? : Value → Option Quantity
  | bool b => some (.whole (if b then 1 else 0))
  | int n => some (.whole n)
  | float d => some (.real d)
  | _ => none

/-- Two numbers have the same exact value. -/
def Quantity.same : Quantity → Quantity → Bool
  | whole a, whole b => a == b
  | whole a, real d => d.isInt a
  | real d, whole b => d.isInt b
  | real d, real e => d.same e

/-- Equality of payloads that hold no others. -/
def sameScalar (a b : Value) : Bool :=
  match a.quantity?, b.quantity? with
  | some x, some y => x.same y
  | none, none =>
    match a, b with
    | null, null => true
    | str s, str t => s == t
    | bytes s, bytes t => s == t
    | _, _ => false
  | _, _ => false

mutual

def same : Value → Value → Bool
  | list xs, b => match b with
    | list ys => sameItems xs ys
    | _ => false
  | tuple xs, b => match b with
    | tuple ys => sameItems xs ys
    | _ => false
  | dict xs, b => match b with
    | dict ys => entriesWithin xs ys && ys.all fun (k, v) => hasEntry xs k v
    | _ => false
  | a, b => sameScalar a b
termination_by structural a => a

def sameItems : List Value → List Value → Bool
  | [], ys => ys.isEmpty
  | x :: xs, ys => match ys with
    | y :: ys => same x y && sameItems xs ys
    | [] => false
termination_by structural a => a

/-- Every entry of the first list equals one of the second. -/
def entriesWithin : List (Value × Value) → List (Value × Value) → Bool
  | [], _ => true
  | (k, v) :: rest, ys => (ys.any fun (k', v') => same k k' && same v v') && entriesWithin rest ys
termination_by structural a => a

/-- Some entry of the list has an equal key and an equal value. -/
def hasEntry : List (Value × Value) → Value → Value → Bool
  | [], _, _ => false
  | (k, v) :: rest, k', v' => (same k k' && same v v') || hasEntry rest k' v'
termination_by structural a => a

end

/-- Inserts an entry: an equal key keeps its place and takes the new value. -/
def insertEntry (entries : List (Value × Value)) (key value : Value) : List (Value × Value) :=
  if entries.any fun (k, _) => same k key then
    entries.map fun (k, v) => if same k key then (k, value) else (k, v)
  else entries ++ [(key, value)]

/-- The dictionary of a list of entries, later ones replacing the values of earlier ones. -/
def dictOf (entries : List (Value × Value)) : Value :=
  dict (entries.foldl (fun d (k, v) => insertEntry d k v) [])

/-- Equality of payloads as far as hashing can see: payloads that cannot be hashed are left out of
the comparison. -/
def sameHash (a b : Value) : Bool :=
  if a.hashable && b.hashable then same a b else a.hashable == b.hashable

end CanonicalAccess.Value
