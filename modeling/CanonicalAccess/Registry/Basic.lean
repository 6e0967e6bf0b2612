import CanonicalAccess.Member
import CanonicalAccess.Query

/-!
# Registries of members

A registry lists the methods and the properties that types declare, in the order of their
definition. Look-ups take the first member that fits.
-/

set_option autoImplicit false

namespace CanonicalAccess

/-- Whether a property is the answer to a question about its type. A property of an instance is
neither an indexer nor static; an indexer is told by its value and index types alone. -/
def Property.answers (p : Property) : Query → Bool
  | .property _ name => p.name == name && !p.isIndexer && !p.static
  | .indexer _ name value index => p.name == name && p.type == value && p.index == index

/-- The members declared so far. -/
structure Registry where
  methods : List Method
  properties : List Property
deriving DecidableEq, Repr

namespace Registry

def empty : Registry := ⟨[], []⟩

instance : Inhabited Registry := ⟨empty⟩

/-- The methods that a type declares. -/
def methodsOf (r : Registry) (t : Ty) : List Method :=
  r.methods.filter fun m => m.declaringType == t

/-- The properties and indexers that a type declares. -/
def propertiesOf (r : Registry) (t : Ty) : List Property :=
  r.properties.filter fun p => p.declaringType == t

/-- The method of a type by name, and by parameter types where they are given. -/
def method? (r : Registry) (t : Ty) (name : String) (parameters : Option (List Ty)) :
    Option Method :=
  (r.methodsOf t).find? fun m =>
    m.name == name && match parameters with
      | none => true
      | some ps => m.parameters == ps

/-- The answer to a question, if there is one. -/
def answer? (r : Registry) (q : Query) : Option Property :=
  (r.propertiesOf q.subject).find? fun p => p.answers q

end Registry

end CanonicalAccess
