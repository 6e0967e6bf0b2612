import CanonicalAccess.Registry.Basic
import CanonicalAccess.Event

/-!
# Definition of members

Defining a property or an indexer generates its accessors, the getter before the setter; defining
a method adds a method of any name. A definition is refused where it would repeat an earlier one:
a property of the name of another that is no indexer, an indexer of the name and index types of
another property, a method of the name and parameter types of another method, each on the same
type. Accessors are methods too, so an accessor may be refused after its property was accepted;
the getter is kept then even if its setter is the one refused.
-/

set_option autoImplicit false

namespace CanonicalAccess

inductive DefinitionError where
  | duplicateProperty (name : String) (on : Ty)
  | noIndex (name : String) (on : Ty)
  | duplicateIndexer (name : String) (index : List Ty) (on : Ty)
  | duplicateMethod (name : String) (on : Ty)
deriving DecidableEq, Repr

def DefinitionError.message : DefinitionError → String
  | duplicateProperty name on =>
    "property `" ++ name ++ "` is already defined on `" ++ on.name ++ "`"
  | noIndex name on =>
    "indexer `" ++ name ++ "` on `" ++ on.name ++ "` needs at least one index parameter"
  | duplicateIndexer name index on =>
    "indexer `" ++ name ++ "[" ++ Ty.names index ++ "]` is already defined on `" ++ on.name ++ "`"
  | duplicateMethod name on =>
    "method `" ++ name ++ "` with the same parameters is already defined on `" ++ on.name ++ "`"

/-- A registry under definition: the members so far, the next free handle, and the events so far.
-/
structure Catalogue where
  registry : Registry
  nextHandle : Nat
  log : List Event
deriving Repr

/-- Work on a catalogue that may be refused; what was added before a refusal stays. -/
abbrev Define := EStateM DefinitionError Catalogue

/-- A property to be defined: read and written, public and of an instance unless said otherwise. -/
structure PropertyDefinition where
  name : String
  type : Ty
  getter : Bool := true
  setter : Bool := true
  isPublic : Bool := true
  static : Bool := false
deriving DecidableEq, Repr

/-- An indexer to be defined: of the common name, read and written, and public unless said
otherwise. -/
structure IndexerDefinition where
  index : List Ty
  type : Ty
  name : String := Property.defaultIndexerName
  getter : Bool := true
  setter : Bool := true
  isPublic : Bool := true
deriving DecidableEq, Repr

/-- A method to be defined: an ordinary one of an instance unless said otherwise. -/
structure MethodDefinition where
  name : String
  parameters : List Ty
  returns : Ty
  special : Bool := false
  static : Bool := false
deriving DecidableEq, Repr

namespace Define

/-- A handle that no member has. -/
def freshHandle : Define Nat :=
  modifyGet fun c => (c.nextHandle, { c with nextHandle := c.nextHandle + 1 })

def record (e : Event) : Define Unit :=
  modify fun c => { c with log := c.log ++ [e] }

def method (on : Ty) (d : MethodDefinition) : Define Method := do
  let c ← get
  if (c.registry.methodsOf on).any fun m => m.hasSignature d.name d.parameters then
    throw (.duplicateMethod d.name on)
  let handle ← freshHandle
  let m : Method := ⟨handle, d.name, on, d.parameters, d.returns, d.special, d.static⟩
  modify fun c => { c with registry.methods := c.registry.methods ++ [m] }
  return m

/-- The definition of an accessor: a getter takes the index and returns the value, a setter takes
the value behind the index and returns nothing. -/
def accessorDefinition (role : Role) (name : String) (index : List Ty) (value : Ty)
    (static : Bool) : MethodDefinition :=
  match role with
  | .getter => ⟨role.marker ++ name, index, value, true, static⟩
  | .setter => ⟨role.marker ++ name, index ++ [value], .void, true, static⟩

/-- Generates an accessor if it is wanted. -/
def accessor (wanted : Bool) (role : Role) (on : Ty) (name : String) (index : List Ty) (value : Ty)
    (static : Bool) : Define Member := do
  if wanted then
    return .method (← method on (accessorDefinition role name index value static))
  else
    return .absent

/-- Adds a property or an indexer with its accessors, the getter first. -/
def backed (on : Ty) (name : String) (index : List Ty) (type : Ty)
    (getter setter isPublic static : Bool) : Define Property := do
  let get ← accessor getter .getter on name index type static
  let set ← accessor setter .setter on name index type static
  let handle ← freshHandle
  let p : Property := ⟨handle, name, on, type, index, get, set, isPublic, static⟩
  modify fun c => { c with registry.properties := c.registry.properties ++ [p] }
  return p

def property (on : Ty) (d : PropertyDefinition) : Define Property := do
  let c ← get
  if (c.registry.propertiesOf on).any fun p => p.name == d.name && !p.isIndexer then
    throw (.duplicateProperty d.name on)
  let p ← backed on d.name [] d.type d.getter d.setter d.isPublic d.static
  record (.definedProperty on d.name d.type)
  return p

def indexer (on : Ty) (d : IndexerDefinition) : Define Property := do
  if d.index.isEmpty then
    throw (.noIndex d.name on)
  let c ← get
  if (c.registry.propertiesOf on).any fun p => p.name == d.name && p.index == d.index then
    throw (.duplicateIndexer d.name d.index on)
  let p ← backed on d.name d.index d.type d.getter d.setter d.isPublic false
  record (.definedIndexer on d.name d.index d.type)
  return p

end Define

/-- A definition on a class type, given by name. -/
inductive Definition where
  | property (on : String) (d : PropertyDefinition)
  | indexer (on : String) (d : IndexerDefinition)
  | method (on : String) (d : MethodDefinition)
deriving DecidableEq, Repr

/-- Carries out a definition; the member defined is the answer. -/
def Definition.perform : Definition → Define Member
  | property on d => .property <$> Define.property (.ofClass on) d
  | indexer on d => .property <$> Define.indexer (.ofClass on) d
  | method on d => .method <$> Define.method (.ofClass on) d

end CanonicalAccess
