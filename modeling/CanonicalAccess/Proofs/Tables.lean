import CanonicalAccess.Proofs.Soundness

/-!
# The tables of types

What a type declares, in a table of its methods and one of its properties, is kept in order by every
history of definitions, whatever of it is refused. Nothing is there twice, and each accessor of a
property is a method of the same type, declared as the property asks for it. A method is an accessor
once at most.

All of this holds in any sound registry (`Sound.wellKept`). There the members of all types are
looked at together, and what is known of them is read off here for the members of one type.
-/

set_option autoImplicit false

namespace CanonicalAccess

/-- What an accessor of a property takes: a getter the index, a setter the value behind it. -/
def Property.accessorParameters (p : Property) : Role → List Ty
  | .getter => p.index
  | .setter => p.index ++ [p.type]

/-- What an accessor of a property returns: a getter the value, a setter nothing. -/
def Property.accessorReturns (p : Property) : Role → Ty
  | .getter => p.type
  | .setter => .void

/-- A method is declared as a property asks for its accessor in a role. -/
structure Method.DeclaredFor (m : Method) (p : Property) (role : Role) : Prop where
  name : m.name = role.marker ++ p.name
  declaringType : m.declaringType = p.declaringType
  special : m.special = true
  static : m.static = p.static
  parameters : m.parameters = p.accessorParameters role
  returns : m.returns = p.accessorReturns role

/-- Being declared as an accessor is to be generated as one, with some handle. -/
theorem Property.generates_iff_declaredFor {p : Property} {role : Role} {m : Method} :
    p.Generates role m ↔ m.DeclaredFor p role := by
  constructor
  · rintro ⟨handle, rfl⟩
    cases role <;> exact ⟨rfl, rfl, rfl, rfl, rfl, rfl⟩
  · rintro ⟨name, declaringType, special, static, parameters, returns⟩
    refine ⟨m.handle, ?_⟩
    obtain ⟨handle, mname, mtype, mparameters, mreturns, mspecial, mstatic⟩ := m
    dsimp only at name declaringType special static parameters returns
    subst name declaringType special static parameters returns
    cases role <;> rfl

namespace Registry

/-- The tables of a type are in order. -/
structure WellKept (r : Registry) (t : Ty) : Prop where
  methods : ((r.methodsOf t).map fun m => (m.name, m.parameters)).Nodup
  properties : (((r.propertiesOf t).filter fun p => !p.isIndexer).map Property.name).Nodup
  indexers : (((r.propertiesOf t).filter Property.isIndexer).map fun p => (p.name, p.index)).Nodup
  accessors : ∀ p ∈ r.propertiesOf t, ∀ role, p.accessor role = .absent ∨
    ∃ m ∈ r.methodsOf t, p.accessor role = .method m ∧ m.DeclaredFor p role
  owned : ∀ m ∈ r.methodsOf t, ∀ p ∈ r.properties, ∀ role, p.accessor role = .method m →
    ∀ q ∈ r.properties, ∀ role', q.accessor role' = .method m → p = q ∧ role = role'

/-- Members told apart by one feature are told apart by another where it determines the first. -/
theorem nodup_map_of_determined {α β γ : Type} {f : α → β} {g : α → γ} {as : List α}
    (h : (as.map f).Nodup) (determined : ∀ a ∈ as, ∀ b ∈ as, g a = g b → f a = f b) :
    (as.map g).Nodup := by
  have hinjective : ∀ a ∈ as, ∀ b ∈ as, g a = g b → a = b := by
    intro a ha b hb hg
    exact List.inj_on_of_nodup_map h ha hb (determined a ha b hb hg)
  exact h.of_map.map_on hinjective

/-- The methods of a type are those that it declares. -/
theorem mem_methodsOf {r : Registry} {t : Ty} {m : Method} :
    m ∈ r.methodsOf t ↔ m ∈ r.methods ∧ m.declaringType = t := by
  simp [methodsOf]

/-- The properties of a type are those that it declares. -/
theorem mem_propertiesOf {r : Registry} {t : Ty} {p : Property} :
    p ∈ r.propertiesOf t ↔ p ∈ r.properties ∧ p.declaringType = t := by
  simp [propertiesOf]

/-- In a sound registry the tables of every type are in order. -/
theorem Sound.wellKept {r : Registry} (hr : r.Sound) (t : Ty) : r.WellKept t := by
  have hmethods : ((r.methodsOf t).map Method.signature).Nodup :=
    hr.methods.sublist (List.filter_sublist.map _)
  have hproperties : ∀ sort : Property → Bool,
      (((r.propertiesOf t).filter sort).map Property.signature).Nodup := by
    intro sort
    exact hr.properties.sublist ((List.filter_sublist.trans List.filter_sublist).map _)
  refine ⟨?_, ?_, ?_, ?_, ?_⟩
  · refine nodup_map_of_determined hmethods ?_
    intro m hm m' hm' heq
    rw [Prod.mk.injEq] at heq
    rw [Method.signature, Method.signature, (mem_methodsOf.mp hm).2, (mem_methodsOf.mp hm').2,
      heq.1, heq.2]
  · refine nodup_map_of_determined (hproperties _) ?_
    intro p hp q hq heq
    simp only [List.mem_filter, mem_propertiesOf, Property.isIndexer, Bool.not_not,
      List.isEmpty_iff] at hp hq
    rw [Property.signature, Property.signature, hp.1.2, hq.1.2, hp.2, hq.2, heq]
  · refine nodup_map_of_determined (hproperties _) ?_
    intro p hp q hq heq
    rw [List.mem_filter, mem_propertiesOf] at hp hq
    rw [Prod.mk.injEq] at heq
    rw [Property.signature, Property.signature, hp.1.2, hq.1.2, heq.1, heq.2]
  · intro p hp role
    rw [mem_propertiesOf] at hp
    rcases hr.backed p hp.1 role with habsent | ⟨m, hm, hbacked, hgenerates⟩
    · exact .inl habsent
    · have hdeclared := Property.generates_iff_declaredFor.mp hgenerates
      have hon : m.declaringType = t := hdeclared.declaringType.trans hp.2
      exact .inr ⟨m, mem_methodsOf.mpr ⟨hm, hon⟩, hbacked, hdeclared⟩
  · intro m _ p hp role hpm q hq role' hqm
    exact hr.eq_of_accessor hp hq hpm hqm

end Registry

/-- After every history of definitions the tables of every type are in order. -/
theorem wellKept_run (n : Nat) (steps : List Step) (t : Ty) :
    ((Catalogue.start n).run steps).registry.WellKept t :=
  ((Catalogue.Reachable.start n).run steps).sound.wellKept t

end CanonicalAccess
