import CanonicalAccess.Normalization.Accessor
import CanonicalAccess.Registry.Basic
import CanonicalAccess.Transformation.Traversal

/-!
# Normalization of accessor calls

Calls to accessors are replaced by the canonical forms of what they do: member access, index, and
assignment to either. The metadata has to lead back from a call to the very method called; a call
for which it does not is refused, and with it the whole tree. There is no falling back to an
ordinary call.

Everything else is left alone, so a subtree without accessor calls is handed back itself.
-/

set_option autoImplicit false

namespace CanonicalAccess

/-- A source of metadata: it answers questions about members, or fails to. -/
abbrev Provider := Query → Except Fault Member

namespace Provider

/-- Answers from a registry. -/
def ofRegistry (r : Registry) : Provider := fun q => .ok (.ofProperty? (r.answer? q))

/-- The same answer to every question about properties, and another to every one about indexers. -/
def fixed (property indexer : Member) : Provider
  | .property .. => .ok property
  | .indexer .. => .ok indexer

/-- Answers nothing. -/
def unsupported : Provider := fun _ => .error .unsupported

end Provider

/-- Metadata as a normalizer meets it: an answer may depend on the questions asked before. -/
structure Metadata where
  answer : List Query → Provider

/-- A provider is metadata that never changes its answers. -/
instance : Coe Provider Metadata := ⟨fun provider => ⟨fun _ => provider⟩⟩

namespace Normalization

/-- Asks a question of metadata. It counts as asked whatever becomes of it. -/
def ask (metadata : Metadata) (q : Query) : Transform Member := do
  let w ← get
  set { w with asked := w.asked ++ [q] }
  .ofExcept (metadata.answer w.asked q)

/-- The property behind an accessor call: the member found, if it is a property that the method
called backs in its role. -/
def backing (call : Expr) (m : Method) (a : Access) (q : Query) (found : Member) :
    Except Fault Property :=
  match found with
  | .absent => throw (.refused ⟨call, m, .unanswered q⟩)
  | .method _ => throw .missing
  | .property p =>
    if p.accessor a.role = .method m then return p
    else throw (.refused ⟨call, m, .notAccessor p a.role⟩)

/-- The canonical form of an access to a property. The value written is the last argument. -/
def canonical (a : Access) (p : Property) (receiver : Expr) (arguments : List Expr) :
    Transform Expr :=
  match a with
  | .readProperty => Transform.create fun l => .member l receiver (.property p)
  | .readIndexer => Transform.create fun l => .index l receiver (.property p) arguments
  | .writeProperty => do
    let target ← Transform.create fun l => .member l receiver (.property p)
    Transform.create fun l => .assign l target (arguments.getLastD .absent)
  | .writeIndexer => do
    let target ← Transform.create fun l => .index l receiver (.property p) arguments.dropLast
    Transform.create fun l => .assign l target (arguments.getLastD .absent)

/-- What takes the place of an accessor call. -/
def settle (metadata : Metadata) (call : Expr) (m : Method) (a : Access) (name : String)
    (receiver : Expr) (arguments : List Expr) : Transform Expr := do
  match m.query? a name with
  | none => throw .noParameter
  | some q =>
    let found ← ask metadata q
    let p ← .ofExcept (backing call m a q found)
    let result ← canonical a p receiver arguments
    Transform.countSettled
    Transform.record (.replaced m.name a.resultKind)
    return result

/-- What takes the place of a call, given what its receiver and its arguments became. -/
def onCall (metadata : Metadata) (call receiver : Expr) (arguments : List Expr) : Transform Expr :=
  match call with
  | .call _ _ (.method m) _ =>
    match m.access? arguments.length with
    | some (a, name) => settle metadata call m a name receiver arguments
    | none => call.update [receiver] arguments
  | _ => throw .missing

/-- The transformer that replaces accessor calls and nothing else. -/
def normalizer (metadata : Metadata) : Transformer where
  onCall := onCall metadata

end Normalization

/-- Normalizes a tree and records how many calls were replaced. The count starts anew. -/
def normalize (metadata : Metadata) (root : Expr) : Transform Expr := do
  modify fun w => { w with settled := 0 }
  let result ← (Normalization.normalizer metadata).accept root
  let w ← get
  Transform.record (.normalized w.settled)
  return result

end CanonicalAccess
