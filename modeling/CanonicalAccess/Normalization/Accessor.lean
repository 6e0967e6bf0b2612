import CanonicalAccess.Expr.Basic
import CanonicalAccess.Query

/-!
# Calls that look like accessor calls

A special method whose name carries the marker of a getter or a setter is called as an accessor.
With the number of arguments this determines the shape of the access: a getter without arguments
reads a property, one with arguments reads an indexer; a setter with one argument writes a
property, one with more writes an indexer, the last argument being the value. A setter called
without arguments is called like any other method.
-/

set_option autoImplicit false

namespace CanonicalAccess

/-- The rest of a text behind a marker at its start, if it starts with the marker. -/
def afterMarker? (marker name : String) : Option String :=
  if marker.toList.isPrefixOf name.toList then
    some (String.ofList (name.toList.drop marker.toList.length))
  else none

/-- What a call to an accessor does. -/
inductive Access where
  | readProperty
  | readIndexer
  | writeProperty
  | writeIndexer
deriving DecidableEq, Repr, Inhabited

namespace Access

/-- The role in which the method is called. -/
def role : Access → Role
  | readProperty | readIndexer => .getter
  | writeProperty | writeIndexer => .setter

/-- The kind of node that takes the place of the call. -/
def resultKind : Access → Kind
  | readProperty => .memberAccess
  | readIndexer => .index
  | writeProperty | writeIndexer => .assign

/-- What an accessor in a role does when called with some number of arguments. -/
def ofRole? : Role → Nat → Option Access
  | .getter, 0 => some readProperty
  | .getter, _ + 1 => some readIndexer
  | .setter, 0 => none
  | .setter, 1 => some writeProperty
  | .setter, _ + 2 => some writeIndexer

end Access

namespace Method

/-- The role that a method's name claims for it, and the name it claims to access. Only special
methods claim one. -/
def claim? (m : Method) : Option (Role × String) :=
  if m.special then
    match afterMarker? Role.getter.marker m.name with
    | some name => some (.getter, name)
    | none => (afterMarker? Role.setter.marker m.name).map fun name => (.setter, name)
  else none

/-- The shape of a call to a method with some number of arguments, if it is an accessor call, and
the name that is accessed. -/
def access? (m : Method) (arguments : Nat) : Option (Access × String) :=
  match m.claim? with
  | some (role, name) => (Access.ofRole? role arguments).map fun a => (a, name)
  | none => none

/-- The question that leads from an accessor call back to its property. An indexer is asked for by
the types that the method declares: a getter's parameters are the index types, and a setter's last
one is the value type. A setter without parameters leaves nothing to ask. -/
def query? (m : Method) (a : Access) (name : String) : Option Query :=
  match a with
  | .readProperty | .writeProperty => some (.property m.declaringType name)
  | .readIndexer => some (.indexer m.declaringType name m.returns m.parameters)
  | .writeIndexer =>
    match m.parameters.getLast? with
    | some value => some (.indexer m.declaringType name value m.parameters.dropLast)
    | none => none

end Method

/-- Whether an expression is a call in the shape of an accessor call. -/
def Expr.isAccessorShaped : Expr → Bool
  | .call _ _ (.method m) arguments => (m.access? arguments.length).isSome
  | _ => false

end CanonicalAccess
