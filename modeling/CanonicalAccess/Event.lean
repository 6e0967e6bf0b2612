import CanonicalAccess.Expr.Basic
import CanonicalAccess.Text.Quoted

/-!
# Events

What is recorded while members are defined, calls are normalized and passes run.
-/

set_option autoImplicit false

namespace CanonicalAccess

inductive Event where
  | definedProperty (on : Ty) (name : String) (type : Ty)
  | definedIndexer (on : Ty) (name : String) (index : List Ty) (value : Ty)
  /-- A call of the named method became a node of the given kind. -/
  | replaced (method : String) (result : Kind)
  /-- A whole tree was normalized, with this many calls replaced. -/
  | normalized (count : Nat)
  /-- The named pass starts. -/
  | running (pass : String)
  /-- The named pass is done, and the tree has this text. -/
  | after (pass : String) (text : String)
deriving DecidableEq, Repr

namespace Event

inductive Level where
  | debug
  | info
deriving DecidableEq, Repr

def Level.word : Level → String
  | debug => "DEBUG"
  | info => "INFO"

/-- The text of a tree after a pass is information; all else is detail. -/
def level : Event → Level
  | after .. => .info
  | _ => .debug

/-- The activities that record events. -/
inductive Activity where
  | definition
  | normalization
  | passes
deriving DecidableEq, Repr

def activity : Event → Activity
  | definedProperty .. | definedIndexer .. => .definition
  | replaced .. | normalized .. => .normalization
  | running .. | after .. => .passes

def quotedName (name : String) : String := String.ofList (Text.literal name.toList)

def message : Event → String
  | definedProperty on name type =>
    "Defined property " ++ on.name ++ "." ++ name ++ ": " ++ type.name
  | definedIndexer on name index value =>
    "Defined indexer " ++ on.name ++ "." ++ name ++ "[" ++
      ", ".intercalate (index.map fun t => quotedName t.name) ++ "]: " ++ value.name
  | replaced method result => "Rewrote " ++ method ++ " call to " ++ result.nodeName
  | normalized count => "Normalized " ++ toString count ++ " accessor call(s)"
  | running pass => "Running " ++ pass
  | after pass text => "After " ++ pass ++ ":\n" ++ text

end Event

end CanonicalAccess
