/-!
# Static types

A static type is a kind and a name, and nothing else: two types with the same kind and name are the
same type. It is written by its name alone, so a primitive and a class may look alike in print and
still differ.
-/

set_option autoImplicit false

namespace CanonicalAccess

/-- The three kinds of static type: a built-in scalar, a type that declares members, and the type
of a call that returns nothing. -/
inductive TyKind where
  | primitive
  | declaring
  | void
deriving DecidableEq, Repr, Inhabited

namespace TyKind

def all : List TyKind := [.primitive, .declaring, .void]

def word : TyKind → String
  | primitive => "primitive"
  | declaring => "class"
  | void => "void"

def title : TyKind → String
  | primitive => "PRIMITIVE"
  | declaring => "CLASS"
  | void => "VOID"

end TyKind

structure Ty where
  kind : TyKind
  name : String
deriving DecidableEq, Repr, Inhabited

namespace Ty

/-- The class type of a given name; such types declare members. -/
def ofClass (name : String) : Ty := ⟨.declaring, name⟩

def i32 : Ty := ⟨.primitive, "i32"⟩
def i64 : Ty := ⟨.primitive, "i64"⟩
def f64 : Ty := ⟨.primitive, "f64"⟩
def bool : Ty := ⟨.primitive, "bool"⟩
def str : Ty := ⟨.primitive, "str"⟩

/-- The type of a constant whose payload has no more precise type. -/
def object : Ty := ofClass "object"

/-- The return type of a setter. -/
def void : Ty := ⟨.void, "void"⟩

/-- The predefined types, in the order in which they are listed. -/
def predefined : List Ty := [i32, i64, f64, bool, str, object, void]

/-- The names of a list of types, separated by a comma and a blank. -/
def names (types : List Ty) : String := ", ".intercalate (types.map Ty.name)

end Ty

end CanonicalAccess
