import CanonicalAccess.Ty

/-!
# Questions about members

Two questions are asked of metadata: which property of an instance has a given name, and which
indexer has a given name, value type and index types.
-/

set_option autoImplicit false

namespace CanonicalAccess

inductive Query where
  | property (on : Ty) (name : String)
  | indexer (on : Ty) (name : String) (value : Ty) (index : List Ty)
deriving DecidableEq, Repr, Inhabited

namespace Query

/-- The type about whose members a question is asked. -/
def subject : Query → Ty
  | property on _ => on
  | indexer on .. => on

/-- What is asked for, in messages. -/
def noun : Query → String
  | property .. => "a property"
  | indexer .. => "an indexer"

/-- The statement that nothing answers the question. Types are given by name. -/
def unansweredNote : Query → String
  | property on name => "no instance property `" ++ name ++ "` on `" ++ on.name ++ "`"
  | indexer on name value index =>
    "no indexer `" ++ name ++ "[" ++ Ty.names index ++ "]: " ++ value.name ++ "` on `" ++
      on.name ++ "`"

end Query

end CanonicalAccess
