import CanonicalAccess.Ty

/-!
# Members

Members are the methods and properties that types declare. A property with index types is an
indexer. A property may be backed by accessor methods: a getter that reads it and a setter that
writes it.

A member has an identity: its handle. Two members are the same only if they are equal in every
field, the handle included, so a look-alike with another handle is another member.
-/

set_option autoImplicit false

namespace CanonicalAccess

/-- A method. A special one serves as an accessor or in another role than an ordinary call. -/
structure Method where
  handle : Nat
  name : String
  declaringType : Ty
  parameters : List Ty
  returns : Ty
  special : Bool
  static : Bool
deriving DecidableEq, Repr, Inhabited

mutual

/-- A property, or an indexer if it has index types. Its accessors are the members it is backed by,
each of which may be missing. -/
structure Property where
  handle : Nat
  name : String
  declaringType : Ty
  type : Ty
  index : List Ty
  getter : Member
  setter : Member
  isPublic : Bool
  static : Bool
deriving DecidableEq, Repr

/-- What stands where a member is expected: nothing, a method or a property. -/
inductive Member where
  | absent
  | method (m : Method)
  | property (p : Property)
deriving DecidableEq, Repr

end

instance : Inhabited Member := ⟨.absent⟩

inductive Role where
  | getter
  | setter
deriving DecidableEq, Repr, Inhabited

namespace Role

/-- What a special method's name starts with in this role. -/
def marker : Role → String
  | getter => "get_"
  | setter => "set_"

/-- The word for the role in messages. -/
def word : Role → String
  | getter => "get"
  | setter => "set"

end Role

namespace Method

/-- The signature by which overloads are told apart: name and parameter types. -/
def hasSignature (m : Method) (name : String) (parameters : List Ty) : Bool :=
  m.name == name && m.parameters == parameters

def describe (m : Method) : String :=
  "MethodDescriptor(" ++ m.declaringType.name ++ "." ++ m.name ++ "(" ++ Ty.names m.parameters ++
    ") -> " ++ m.returns.name ++ ")"

end Method

namespace Property

/-- A property with at least one index type. -/
def isIndexer (p : Property) : Bool := !p.index.isEmpty

/-- The member that backs a property in a role. -/
def accessor (p : Property) : Role → Member
  | .getter => p.getter
  | .setter => p.setter

/-- The name of an indexer for which none is given. -/
def defaultIndexerName : String := "Item"

/-- A one-line description; the index types follow the name of an indexer in brackets. -/
def describe (p : Property) : String :=
  "PropertyDescriptor(" ++ p.declaringType.name ++ "." ++ p.name ++
    (if p.isIndexer then "[" ++ Ty.names p.index ++ "]" else "") ++ ": " ++ p.type.name ++ ")"

end Property

namespace Member

def name? : Member → Option String
  | absent => none
  | method m => some m.name
  | property p => some p.name

/-- A one-line description; nothing is described as such. -/
def describe : Member → String
  | absent => "None"
  | method m => m.describe
  | property p => p.describe

/-- The property found in a table, or nothing. -/
def ofProperty? : Option Property → Member
  | some p => .property p
  | none => .absent

end Member

end CanonicalAccess
