import CanonicalAccess.Proofs.Sharing
import CanonicalAccess.Proofs.Stability

/-!
# Static types of normalized trees

A call has the return type of its method, an access the type of its property. A getter returns the
type of its property, so to settle a read changes no type; a setter returns nothing and takes the
value last, so a settled write has the value's type. A tree has the type of one node, its type
source, and the source of the normalized tree is what became of the source of the tree. So the type
of a tree changes if its source is a write, and then to the type of the value
(`typeEffect_normalize`).
-/

set_option autoImplicit false

namespace CanonicalAccess

/-! ### The types of properties -/

/-- A property has the type that its getter returns and that its setter takes last. -/
def Property.FitsType (p : Property) (role : Role) (m : Method) : Prop :=
  match role with
  | .getter => p.type = m.returns
  | .setter => m.parameters.getLast? = some p.type

/-- A generated accessor returns or takes what the property holds. -/
theorem Property.Generates.fitsType {p : Property} {role : Role} {m : Method}
    (h : p.Generates role m) : p.FitsType role m := by
  have hparameters := h.parameters
  cases role with
  | getter =>
    obtain ⟨handle, rfl⟩ := h
    rfl
  | setter =>
    rw [FitsType, hparameters]
    exact List.getLast?_concat

/-- In a sound registry a call leads to a property of the type that the method has for it. -/
theorem Registry.Sound.fitsType_of_leadsTo {r : Registry} (hr : r.Sound) {m : Method} {n : Nat}
    {a : Access} {p : Property} (h : m.LeadsTo (Provider.ofRegistry r) n a p) :
    p.FitsType a.role m := by
  obtain ⟨hp, backed, -, -⟩ := hr.leadsTo_iff.mp h
  exact (hr.generates hp backed).2.fitsType

namespace Normalization

/-- A canonical node has the type of its property. -/
theorem type_canonicalNode (l : Label) (a : Access) (p : Property) (receiver : Expr)
    (arguments : List Expr) : (canonicalNode l a p receiver arguments).type = .ok p.type := by
  cases a <;> rfl

end Normalization

namespace Expr

/-- The method of an accessor call that writes. -/
def setter? : Expr → Option Method
  | call _ _ (.method m) arguments =>
    match m.access? arguments.length with
    | some (a, _) => if a.role = .setter then some m else none
    | none => none
  | _ => none

/-- The setter of an accessor call is its method, if the call writes. -/
theorem setter?_of_access? {l : Label} {receiver : Expr} {m : Method} {arguments : List Expr}
    {a : Access} {name : String} (shape : m.access? arguments.length = some (a, name)) :
    (call l receiver (.method m) arguments).setter? =
      if a.role = .setter then some m else none := by
  rw [setter?, shape]

/-- What is no accessor call calls no setter. -/
theorem setter?_of_unshaped {e : Expr} (h : e.isAccessorShaped = false) : e.setter? = none := by
  cases e with
  | call l receiver m arguments =>
    cases m with
    | absent | property p => rfl
    | method m =>
      have hnone : m.access? arguments.length = none := by
        simpa [isAccessorShaped_call] using h
      rw [setter?, hnone]
  | _ => rfl

/-! ### What becomes of a type -/

/-- The effect on the type of an expression: if it is the type of a call that writes, what the
setter returns gives way to what the setter takes last; and else the type stays, or the fault in its
place. -/
structure TypeEffect (e r : Expr) : Prop where
  write : ∀ m, e.typeSource.setter? = some m → e.type = .ok m.returns ∧
    ∃ value, m.parameters.getLast? = some value ∧ r.type = .ok value
  other : e.typeSource.setter? = none → r.type = e.type

namespace TypeEffect

/-- A node whose type is that of a child is affected as the child is. -/
theorem of_child {e r c c' : Expr} (h : TypeEffect c c') (hsource : e.typeSource = c.typeSource)
    (hr : r.type = c'.type) : TypeEffect e r := by
  have htype : e.type = c.type := by
    rw [← type_typeSource, hsource, type_typeSource]
  constructor
  · intro m hm
    rw [hsource] at hm
    rw [htype, hr]
    exact h.write m hm
  · intro hnone
    rw [hsource] at hnone
    rw [htype, hr]
    exact h.other hnone

/-- Where the type is not that of a call that writes, it has to stay. -/
theorem of_type_eq {e r : Expr} (hnone : e.typeSource.setter? = none) (h : r.type = e.type) :
    TypeEffect e r where
  write := by
    intro m hm
    rw [hnone] at hm
    cases hm
  other := fun _ => h

/-- A node that is no accessor call has the type of one of its children, or keeps its own. -/
theorem rebuild {e : Expr} {cs : List Expr} (l : Label) (unshaped : e.isAccessorShaped = false)
    (habsent : List.Forall₂ (fun c c' => c'.isAbsent = c.isAbsent) e.children cs)
    (hcs : List.Forall₂ TypeEffect e.children cs) : TypeEffect e (e.rebuild l cs) := by
  have hlen := hcs.length_eq.symm
  induction e, cs, hlen using children_cases with
  | assign l₀ t v t' v' => exact of_child (List.forall₂_cons.mp hcs).1 rfl rfl
  | conditional l₀ c x y c' x' y' =>
    exact of_child (List.forall₂_cons.mp (List.forall₂_cons.mp hcs).2).1 rfl rfl
  | lambda l₀ ps b b' =>
    -- Without a body a lambda returns nothing, and its body stays away.
    have hbody := (List.forall₂_cons.mp habsent).1
    cases hb : b.isAbsent with
    | true =>
      rw [hb] at hbody
      refine of_type_eq ?_ ?_
      · simp [typeSource, hb, setter?]
      · simp [Expr.rebuild, type, hb, hbody]
    | false =>
      rw [hb] at hbody
      refine of_child (List.forall₂_cons.mp hcs).1 ?_ ?_
      · simp [typeSource, hb]
      · simp [Expr.rebuild, type, hbody]
  | call l₀ r m as r' as' => exact of_type_eq (setter?_of_unshaped unshaped) rfl
  | _ => exact of_type_eq rfl rfl

/-- A settled call has the type of the property that it leads to. -/
theorem settled {l l' : Label} {receiver receiver' : Expr} {m : Method}
    {arguments arguments' : List Expr} {a : Access} {name : String} {p : Property}
    (shape : m.access? arguments.length = some (a, name)) (hp : p.FitsType a.role m) :
    TypeEffect (call l receiver (.method m) arguments)
      (Normalization.canonicalNode l' a p receiver' arguments') := by
  have hsource : (call l receiver (.method m) arguments).typeSource.setter? =
      if a.role = .setter then some m else none := setter?_of_access? shape
  have hr := Normalization.type_canonicalNode l' a p receiver' arguments'
  cases hrole : a.role with
  | getter =>
    rw [hrole] at hsource hp
    refine of_type_eq (hsource.trans (if_neg nofun)) ?_
    rw [hr, hp]
    rfl
  | setter =>
    rw [hrole, if_pos rfl] at hsource
    rw [hrole] at hp
    constructor
    · intro m' hm
      rw [hsource, Option.some.injEq] at hm
      subst hm
      exact ⟨rfl, p.type, hp, hr⟩
    · intro hnone
      rw [hsource] at hnone
      cases hnone

end TypeEffect

namespace Replaced

variable {carries : Method → Nat → Access → Property → Prop} {e r : Expr}

/-- What takes the place of an expression is there exactly if that was. -/
theorem isAbsent (h : Replaced carries e r) : r.isAbsent = e.isAbsent := by
  cases h with
  | @kept _ cs l unshaped children =>
    have hlen := children.length_eq.symm
    induction e, cs, hlen using children_cases with
    | _ => rfl
  | settled => exact Normalized.isAbsent_canonicalNode

/-- Where the properties that calls lead to fit the types of their methods, the types of trees are
affected as they should be. -/
theorem typeEffect (h : Replaced (fun m _ a p => p.FitsType a.role m) e r) : TypeEffect e r := by
  induction e using children_induction generalizing r with
  | step e ih =>
    cases h with
    | kept l unshaped children =>
      refine .rebuild l unshaped (children.imp fun _ _ hc => hc.isAbsent) ?_
      exact forall₂_imp_of_mem (fun c hc _ => ih c hc) children
    | settled l' shape carried children => exact .settled shape carried

/-- An operation is what it was but for its operands. -/
theorem of_unary {l : Label} {op : UnaryOp} {x : Expr} {type : Ty}
    (h : Replaced carries (unary l op x type) r) : ∃ l' x', r = unary l' op x' type := by
  obtain ⟨l', cs, rfl, children⟩ := h.of_unshaped rfl
  obtain ⟨x', rfl⟩ := List.length_eq_one_iff.mp children.length_eq.symm
  exact ⟨l', x', rfl⟩

/-- An operation with two operands stays one, of the same type. -/
theorem of_binary {l : Label} {op : BinaryOp} {x y : Expr} {type : Ty}
    (h : Replaced carries (binary l op x y type) r) :
    ∃ l' x' y', r = binary l' op x' y' type := by
  obtain ⟨l', cs, rfl, children⟩ := h.of_unshaped rfl
  obtain ⟨x', y', rfl⟩ := List.length_eq_two.mp children.length_eq.symm
  exact ⟨l', x', y', rfl⟩

end Replaced

end Expr

/-- The effect of normalization on types, with a reachable catalogue for metadata. At the root and
at every position that the walk comes to: if the type is that of a call that writes, it becomes the
type of the value written; any other type stays, or the fault in its place. An operation keeps its
operator and the type that it stores, whatever becomes of its operands. -/
theorem typeEffect_normalize {c : Catalogue} (reachable : c.Reachable) {t r : Expr} {w w' : Work}
    (known : t.labelsBelow w.nextLabel = true)
    (h : normalize (Provider.ofRegistry c.registry) t w = .ok r w') :
    Expr.TypeEffect t r ∧ ∀ path s, t.subtree? path = some s →
      ∃ s' v, (Normalization.normalizer (Provider.ofRegistry c.registry)).resultAt path t
          { w with settled := 0 } = .ok s' v ∧
        Expr.TypeEffect s s' ∧
        (∀ l op x type, s = .unary l op x type → ∃ l' x', s' = .unary l' op x' type) ∧
        ∀ l op x y type, s = .binary l op x y type →
          ∃ l' x' y', s' = .binary l' op x' y' type := by
  obtain ⟨w₁, haccept, -⟩ := normalize_eq_ok_iff.mp h
  obtain ⟨-, hvisit⟩ := Transformer.visit_of_accept haccept
  have htyped : ∀ {e r : Expr}, e.Replaced (Method.LeadsTo (Provider.ofRegistry c.registry)) r →
      Expr.TypeEffect e r :=
    fun hreplaced => (hreplaced.imp fun _ => reachable.sound.fitsType_of_leadsTo).typeEffect
  refine ⟨htyped (Normalization.replaced_of_normalize known h), ?_⟩
  intro path s hs
  obtain ⟨v, s', v', hwalk, hle, hresult⟩ :=
    Transformer.walkTo_of_visit (Normalization.careful_normalizer _) hvisit hs
  have knownHere := Expr.labelsBelow_mono hle s (Expr.labelsBelow_of_subtree? known hs)
  have hreplaced := Expr.Replaced.of_visit knownHere hresult
  refine ⟨s', v', (Transform.bind_eq_ok_iff _ _ _ _ _).mpr ⟨s, v, hwalk, hresult⟩,
    htyped hreplaced, ?_, ?_⟩
  · rintro l op x type rfl
    exact hreplaced.of_unary
  · rintro l op x y type rfl
    exact hreplaced.of_binary

namespace Grid

/-- A conversion of the function that copies the first cell, to the type that the function has. -/
def convertedCopy : Expr := .unary 6 .convert copyFirst .void

/-- The converted copy is normalized over the registry of the history. -/
theorem normalize_convertedCopy :
    ∃ r w', normalize (Provider.ofRegistry ((Catalogue.start 0).run history).registry) convertedCopy
      (Work.start 7) = .ok r w' := ⟨_, _, rfl⟩

end Grid

/-- The function that copies a cell returns nothing, and what takes its place returns the value of
the cell; the conversion of it keeps the type that it was given. -/
theorem typeEffect_normalize_convertedCopy :
    ∃ r w', normalize (Provider.ofRegistry ((Catalogue.start 0).run Grid.history).registry)
        Grid.convertedCopy (Work.start 7) = .ok r w' ∧
      Grid.convertedCopy.labelsBelow 7 = true ∧ r.type = .ok .void ∧
      Grid.convertedCopy.subtree? [0] = some Grid.copyFirst ∧ Grid.copyFirst.type = .ok .void ∧
      ∃ s' v, (Normalization.normalizer (Provider.ofRegistry
          ((Catalogue.start 0).run Grid.history).registry)).resultAt [0] Grid.convertedCopy
          (Work.start 7) = .ok s' v ∧ s'.type = .ok .f64 := by
  have known : Grid.convertedCopy.labelsBelow (Work.start 7).nextLabel = true := by decide
  have reachable := (Catalogue.Reachable.start 0).run Grid.history
  obtain ⟨r, w', hrun⟩ := Grid.normalize_convertedCopy
  obtain ⟨hroot, hpaths⟩ := typeEffect_normalize reachable known hrun
  obtain ⟨s', v, hresult, heffect, -⟩ := hpaths [0] Grid.copyFirst rfl
  obtain ⟨htype, value, hvalue, hs'⟩ := heffect.write Grid.setter rfl
  cases hvalue
  exact ⟨r, w', hrun, known, hroot.other rfl, rfl, htype, s', v, hresult, hs'⟩

end CanonicalAccess
