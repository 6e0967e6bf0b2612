import CanonicalAccess.Expr.Typing
import CanonicalAccess.Event

/-!
# Work on expressions

Transformation makes new nodes, records events and may fail. What was done before a failure stays
done: the labels taken, the events recorded, the calls counted.
-/

set_option autoImplicit false

namespace CanonicalAccess

/-- What transformation has done so far: the next free label, the events recorded, the number of
accessor calls settled, and the questions asked of metadata. -/
structure Work where
  nextLabel : Label
  log : List Event
  settled : Nat
  asked : List Query
deriving Repr

/-- Work that starts with a free label and has done nothing. -/
def Work.start (nextLabel : Label) : Work := ⟨nextLabel, [], 0, []⟩

/-- A computation on expressions that may fail. -/
abbrev Transform := EStateM Fault Work

namespace Transform

/-- A label that no node has. -/
def freshLabel : Transform Label :=
  modifyGet fun w => (w.nextLabel, { w with nextLabel := w.nextLabel + 1 })

/-- Makes a node with a label of its own. -/
def create (node : Label → Expr) : Transform Expr := node <$> freshLabel

def record (e : Event) : Transform Unit :=
  modify fun w => { w with log := w.log ++ [e] }

def countSettled : Transform Unit :=
  modify fun w => { w with settled := w.settled + 1 }

/-- An answer, or the fault that stands in its place. -/
def ofExcept {α : Type} : Except Fault α → Transform α
  | .ok a => pure a
  | .error f => throw f

def inOrder {α : Type} : List (Transform α) → Transform (List α)
  | [] => pure []
  | x :: xs => do
    let a ← x
    let as ← inOrder xs
    return a :: as

/-! What each operation does to the work it starts from. -/

variable {α β : Type}

/-- A failure leaves the work as it is. -/
theorem throw_apply (f : Fault) (w : Work) : (throw f : Transform α) w = .error f w := rfl

/-- An answer or a fault at hand leaves the work as it is. -/
theorem ofExcept_apply (x : Except Fault α) (w : Work) :
    ofExcept x w = match x with
      | .ok a => .ok a w
      | .error f => .error f w := by
  cases x <;> rfl

/-- Two steps succeed exactly if the first does and the second does with its answer. -/
theorem bind_eq_ok_iff (x : Transform α) (f : α → Transform β) (w w'' : Work) (b : β) :
    (x >>= f) w = .ok b w'' ↔ ∃ a w', x w = .ok a w' ∧ f a w' = .ok b w'' := by
  simp only [bind, EStateM.bind]
  constructor
  · intro h
    cases hx : x w with
    | ok a w' =>
      rw [hx] at h
      exact ⟨a, w', rfl, h⟩
    | error e w' =>
      rw [hx] at h
      cases h
  · rintro ⟨a, w', hx, h⟩
    rw [hx]
    exact h

/-- Two steps fail exactly if the first does, or the second does with the answer of the first. -/
theorem bind_eq_error_iff (x : Transform α) (f : α → Transform β) (w w'' : Work) (e : Fault) :
    (x >>= f) w = .error e w'' ↔
      x w = .error e w'' ∨ ∃ a w', x w = .ok a w' ∧ f a w' = .error e w'' := by
  simp only [bind, EStateM.bind]
  cases hx : x w with
  | ok a w' =>
    constructor
    · intro h
      exact .inr ⟨a, w', rfl, h⟩
    · rintro (h | ⟨a', w₁, h₁, h⟩)
      · cases h
      · cases h₁
        exact h
  | error e' w' =>
    constructor
    · intro h
      left
      simpa using h
    · rintro (h | ⟨a', w₁, h₁, h⟩)
      · simpa using h
      · cases h₁

/-- A new node has the first free label, and the label is free no more. -/
theorem create_apply (node : Label → Expr) (w : Work) :
    create node w = .ok (node w.nextLabel) { w with nextLabel := w.nextLabel + 1 } := rfl

end Transform

namespace Expr

/-- A constant of the given type, or of the one its payload has. -/
def makeConstant (value : Value) (type : Option Ty) : Transform Expr :=
  Transform.create fun l => .constant l value (type.getD value.type)

/-- An operation of the given type, or of the type of its first operand. -/
def makeOperation (operation : Label → Ty → Expr) (type : Option Ty) (first : Expr) :
    Transform Expr := do
  let t ← Transform.ofExcept (typeOr type first)
  Transform.create fun l => operation l t

def makeUnary (op : UnaryOp) (operand : Expr) (type : Option Ty) : Transform Expr :=
  makeOperation (fun l t => .unary l op operand t) type operand

def makeBinary (op : BinaryOp) (left right : Expr) (type : Option Ty) : Transform Expr :=
  makeOperation (fun l t => .binary l op left right t) type left

/-- A constant is made in any case. -/
theorem makeConstant_apply (value : Value) (type : Option Ty) (w : Work) :
    makeConstant value type w = .ok (.constant w.nextLabel value (type.getD value.type))
      { w with nextLabel := w.nextLabel + 1 } := rfl

/-- An operation is made as soon as it has a type. Otherwise it fails as the type of the operand
does, and no label is taken. -/
theorem makeOperation_apply (operation : Label → Ty → Expr) (type : Option Ty) (first : Expr)
    (w : Work) :
    makeOperation operation type first w = match typeOr type first with
      | .ok t => .ok (operation w.nextLabel t) { w with nextLabel := w.nextLabel + 1 }
      | .error fault => .error fault w := by
  unfold makeOperation
  cases typeOr type first <;> rfl

/-- An operation that is made has the type that is given for it, or that of its first operand. -/
theorem type_of_makeOperation {operation : Label → Ty → Expr} {type : Option Ty} {first e : Expr}
    {w w' : Work} (typed : ∀ l t, (operation l t).type = .ok t)
    (h : makeOperation operation type first w = .ok e w') : e.type = typeOr type first := by
  rw [makeOperation_apply] at h
  cases htype : typeOr type first with
  | error fault =>
    rw [htype] at h
    cases h
  | ok t =>
    rw [htype] at h
    cases h
    exact typed _ t

/-- An operation with one operand has the type given for it, or that of the operand. -/
theorem type_of_makeUnary {op : UnaryOp} {operand e : Expr} {type : Option Ty} {w w' : Work}
    (h : makeUnary op operand type w = .ok e w') : e.type = typeOr type operand :=
  type_of_makeOperation (fun _ _ => rfl) h

/-- An operation with two operands has the type given for it, or that of the left one. -/
theorem type_of_makeBinary {op : BinaryOp} {left right e : Expr} {type : Option Ty} {w w' : Work}
    (h : makeBinary op left right type w = .ok e w') : e.type = typeOr type left :=
  type_of_makeOperation (fun _ _ => rfl) h

end Expr

end CanonicalAccess
