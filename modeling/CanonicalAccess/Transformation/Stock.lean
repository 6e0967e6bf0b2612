import CanonicalAccess.Transformation.Traversal

/-!
# Simple transformers

Transformers that change nothing, or only leaves.
-/

set_option autoImplicit false

namespace CanonicalAccess.Transformer

def identity : Transformer := {}

/-- The double of a whole number, truth values counting as zero and one. -/
def twice? : Value → Option Value
  | .bool b => some (.int (if b then 2 else 0))
  | .int n => some (.int (2 * n))
  | _ => none

/-- Replaces whole-number constants by their doubles, of the same type. -/
def double : Transformer where
  onConstant
    | .constant l v t =>
      match twice? v with
      | some w => Transform.create fun l' => .constant l' w t
      | none => pure (.constant l v t)
    | e => pure e

/-- Replaces every constant by zero, of the same type. -/
def zero : Transformer where
  onConstant
    | .constant _ _ t => Transform.create fun l => .constant l (.int 0) t
    | e => pure e

/-- Appends a prime to the name of every parameter that is used. -/
def rename : Transformer where
  onParameter
    | .parameter _ n t => Transform.create fun l => .parameter l (n ++ "'") t
    | e => pure e

end CanonicalAccess.Transformer
