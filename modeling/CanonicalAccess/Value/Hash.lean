import CanonicalAccess.Member
import CanonicalAccess.Value.Equality

/-!
# Hashes of payloads

How atoms are hashed, and how the hashes of several things are combined, is left open: a `Hasher`
says it. Only this is asked of one, that it hashes equal numbers alike, be they truth values,
integers or doubles. Lists and dictionaries have no hash, and neither has a tuple that holds
something without one.
-/

set_option autoImplicit false

namespace CanonicalAccess

/-- A way of hashing atoms and of combining hashes. -/
structure Hasher (H : Type) where
  nothing : H
  number : Value.Quantity → H
  text : String → H
  bytes : List UInt8 → H
  method : Method → H
  property : Property → H
  combine : List H → H
  number_same : ∀ x y : Value.Quantity, x.same y = true → number x = number y

variable {H : Type}

namespace Value

mutual

/-- The hash of a payload, if it has one. -/
def hash? (hasher : Hasher H) : Value → Option H
  | null => some hasher.nothing
  | bool b => some (hasher.number (.whole (if b then 1 else 0)))
  | int n => some (hasher.number (.whole n))
  | float d => some (hasher.number (.real d))
  | str s => some (hasher.text s)
  | bytes bs => some (hasher.bytes bs)
  | list _ => none
  | tuple items => (hashes? hasher items).map hasher.combine
  | dict _ => none
termination_by structural v => v

/-- The hashes of all payloads of a list, if each has one. -/
def hashes? (hasher : Hasher H) : List Value → Option (List H)
  | [] => some []
  | v :: vs =>
    match hash? hasher v, hashes? hasher vs with
    | some x, some xs => some (x :: xs)
    | _, _ => none
termination_by structural vs => vs

end

end Value

namespace Hasher

variable (hasher : Hasher H)

/-- Members hash by their identity, which is part of them. -/
def member : Member → H
  | .absent => hasher.nothing
  | .method m => hasher.method m
  | .property p => hasher.property p

def type (t : Ty) : H := hasher.combine [hasher.text t.kind.title, hasher.text t.name]

/-- The hash of a field with its name, if the field has one. -/
def field (f : String × Option H) : Option H :=
  f.2.map fun hash => hasher.combine [hasher.text f.1, hash]

/-- The hash of a record: its name and its fields, those without a hash being left out. -/
def record (name : String) (fields : List (String × Option H)) : H :=
  hasher.combine [hasher.text name, hasher.combine (fields.filterMap hasher.field)]

end Hasher

end CanonicalAccess
