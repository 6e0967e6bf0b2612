import CanonicalAccess.Diagnostic.Basic
import CanonicalAccess.Diagnostic.Display
import CanonicalAccess.Sexp.OfExpr

/-!
# Violations

A violation reports a call that cannot be normalized: what is wrong, with a code, a note and
advice, and the call itself, which is shown as the subject of the diagnostic. Faults of the
program itself are reported by a code and a message.
-/

set_option autoImplicit false

namespace CanonicalAccess

/-- The code of a violation, and that of a fault of the program itself. -/
def violationCode : String := "E0601"
def implementationCode : String := "E9999"

/-- A call that cannot be normalized, or whatever is reported in the same way. -/
structure Violation where
  message : String
  code : Option String
  help : Option String
  note : Option String
  node : Expr
  method : Member
deriving Repr

namespace Violation

/-- The diagnostic of a violation; its subject is the text of the node, if there is one. -/
def diagnostic (v : Violation) : Except Fault Diagnostic := do
  let subject ←
    if v.node.isAbsent then pure none
    else some <$> v.node.serialize false
  return ⟨v.message, v.code, subject, v.help, v.note⟩

/-- The text of a violation on a display. The node is written first, and then it is settled whether
colour is shown; either may fail. -/
def text {ε : Type} (display : Display ε) (v : Violation) : Except (Fault ⊕ ε) String := do
  let d ← v.diagnostic.mapError .inl
  let color ← display.useColor.mapError .inr
  return d.render color

end Violation

def Refusal.violation (r : Refusal) : Violation :=
  ⟨r.message, some violationCode, r.help?, some r.note, r.call, .method r.method⟩

/-- The text of a fault of the program itself: its code and its message. -/
def implementationText (code : Option String) (message : String) : String :=
  "[" ++ code.getD "None" ++ "] " ++ message

/-- What a fault of the program itself says. -/
def Fault.implementationMessage? : Fault → Option String
  | .untyped => some ("type not implemented for " ++ Expr.bareName)
  | .unvisitable => some ("accept() not implemented for " ++ Expr.bareName)
  | _ => none

/-- Under one code, reports with different messages differ. -/
theorem implementationText_inj {code : Option String} {message message' : String} :
    implementationText code message = implementationText code message' ↔ message = message' := by
  simp only [implementationText, String.append_right_inj]

/-- If an expression has no type, this is reported as a fault of the program itself exactly if its
type would be that of a node of no particular kind. -/
theorem Expr.implementationMessage?_of_type_eq_error {e : Expr} {fault : Fault}
    (h : e.type = .error fault) :
    fault.implementationMessage? =
      match e.typeSource with
      | .bare _ => some ("type not implemented for " ++ bareName)
      | _ => none := by
  induction e with
  | assign l t v iht _ => exact iht h
  | conditional l c x y _ ihx _ => exact ihx h
  | lambda l ps b _ ihb =>
    cases hb : b.isAbsent with
    | true => simp [type, hb] at h
    | false =>
      simp only [type, hb] at h
      simpa [typeSource, hb] using ihb h
  | absent | bare _ =>
    cases h
    rfl
  | member _ _ m | index _ _ m _ | call _ _ m _ =>
    cases m <;> cases h <;> rfl
  | constant _ _ _ | parameter _ _ _ | unary _ _ _ _ | binary _ _ _ _ _ => cases h

end CanonicalAccess
