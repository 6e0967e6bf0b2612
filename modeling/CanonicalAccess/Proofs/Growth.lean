import CanonicalAccess.Registry.History
import Mathlib.Logic.Relation

/-!
# How a registry grows

Whatever is defined, a registry grows by one member at a time and only at the end: by a method of
a signature that its type did not have, or by a property of a signature that its type did not have,
backed by accessors generated for it. That is also so where a definition is refused, which may
leave an accessor behind but never a property.

`Growth` says this of one member, and `step_grown` of a step of a history. The properties in the
registry at the end of a history are those that its steps returned (`properties_run`).
-/

set_option autoImplicit false

namespace CanonicalAccess

/-- What tells a method from the others of its type. -/
def Method.signature (m : Method) : Ty × String × List Ty := (m.declaringType, m.name, m.parameters)

/-- What tells a property or an indexer from the others of its type. -/
def Property.signature (p : Property) : Ty × String × List Ty := (p.declaringType, p.name, p.index)

/-- The method that a definition on a type adds. -/
def MethodDefinition.member (d : MethodDefinition) (handle : Nat) (on : Ty) : Method :=
  ⟨handle, d.name, on, d.parameters, d.returns, d.special, d.static⟩

/-- What tells the method that a definition on a type adds from the others of the type. -/
def MethodDefinition.signature (d : MethodDefinition) (on : Ty) : Ty × String × List Ty :=
  (on, d.name, d.parameters)

/-- A marked name tells the role and the name behind the marker. -/
theorem Role.marker_append_inj {role role' : Role} {name name' : String}
    (h : role.marker ++ name = role'.marker ++ name') : role = role' ∧ name = name' := by
  have hletters := congrArg String.toList h
  simp only [String.toList_append] at hletters
  cases role <;> cases role' <;> simp [marker, String.toList_inj] at hletters ⊢
  all_goals exact hletters

/-- An accessor's signature tells its role, and the name and the index of its property, whatever the
type of the value is. -/
theorem Define.accessorDefinition_determined {role role' : Role} {on on' : Ty}
    {name name' : String} {index index' : List Ty} {value value' : Ty} {static static' : Bool}
    (h : (accessorDefinition role name index value static).signature on =
      (accessorDefinition role' name' index' value' static').signature on') :
    role = role' ∧ on = on' ∧ name = name' ∧ index = index' := by
  simp only [MethodDefinition.signature, Prod.mk.injEq] at h
  obtain ⟨hon, hname, hparameters⟩ := h
  have hmarked : role.marker ++ name = role'.marker ++ name' := by
    cases role <;> cases role' <;> exact hname
  obtain ⟨rfl, rfl⟩ := Role.marker_append_inj hmarked
  refine ⟨rfl, hon, rfl, ?_⟩
  -- The role tells whether the value's type is behind the index.
  cases role with
  | getter => exact hparameters
  | setter => exact List.append_inj_left' hparameters rfl

/-- A type has a method already that a definition would add. -/
def Registry.Declares (r : Registry) (on : Ty) (d : MethodDefinition) : Prop :=
  d.signature on ∈ r.methods.map Method.signature

instance (r : Registry) (on : Ty) (d : MethodDefinition) : Decidable (r.Declares on d) :=
  inferInstanceAs (Decidable (d.signature on ∈ r.methods.map Method.signature))

/-- The test for duplicates finds out whether a method is there already. -/
theorem Registry.any_hasSignature_iff {r : Registry} {on : Ty} {d : MethodDefinition} :
    ((r.methodsOf on).any fun m => m.hasSignature d.name d.parameters) = true ↔
      r.Declares on d := by
  simp only [List.any_eq_true, methodsOf, List.mem_filter, Method.hasSignature, Declares,
    MethodDefinition.signature, List.mem_map, Method.signature, Prod.mk.injEq, beq_iff_eq,
    Bool.and_eq_true, and_assoc]

/-- The property that a member is, if it is one. -/
def Member.property? : Member → Option Property
  | .property p => some p
  | _ => none

/-- A method is an accessor as generated for a property in a role. -/
def Property.Generates (p : Property) (role : Role) (m : Method) : Prop :=
  ∃ handle, m = (Define.accessorDefinition role p.name p.index p.type p.static).member handle
    p.declaringType

/-- What backs a property in a role is one of some methods, generated for it, or nothing. -/
def Property.Backed (p : Property) (role : Role) (methods : List Method) : Prop :=
  p.accessor role = .absent ∨ ∃ m ∈ methods, p.accessor role = .method m ∧ p.Generates role m

/-- What backs a property is not among the methods of a registry. -/
def Property.BackedAnew (p : Property) (r : Registry) : Prop :=
  ∀ role m, p.accessor role = .method m → m ∉ r.methods

/-- A property that is backed stays so when methods are added. -/
theorem Property.Backed.mono {p : Property} {role : Role} {methods methods' : List Method}
    (h : p.Backed role methods) (hsub : methods ⊆ methods') : p.Backed role methods' := by
  rcases h with h | ⟨m, hm, h⟩
  · exact .inl h
  · exact .inr ⟨m, hsub hm, h⟩

namespace Registry

/-- One member more. -/
inductive Growth (r : Registry) : Registry → Prop where
  | method (m : Method) (fresh : m.signature ∉ r.methods.map Method.signature) :
      Growth r { r with methods := r.methods ++ [m] }
  | property (p : Property) (fresh : p.signature ∉ r.properties.map Property.signature)
      (backed : ∀ role, p.Backed role r.methods) (instanced : p.isIndexer = true → p.static = false) :
      Growth r { r with properties := r.properties ++ [p] }

/-- Some members more, one after the other. -/
abbrev Grown : Registry → Registry → Prop := Relation.ReflTransGen Growth

/-- One more member is growth. -/
theorem Growth.grown {r r' : Registry} (h : Growth r r') : Grown r r' := .single h

/-- No method gets lost by growth. -/
theorem Grown.methods_subset {r r' : Registry} (h : Grown r r') : r.methods ⊆ r'.methods := by
  induction h with
  | refl => exact List.Subset.refl _
  | tail _ growth ih =>
    cases growth with
    | method m => exact List.Subset.trans ih (List.subset_append_left _ _)
    | property p => exact ih

end Registry

namespace Define

open Registry (Grown)

variable {α β : Type}

/-- How work on a catalogue ends: it is carried out with an answer that meets a condition, or it is
refused and no property was added. Either way the registry has only grown. -/
inductive Outcome (c : Catalogue) (post : α → Catalogue → Prop) :
    EStateM.Result DefinitionError Catalogue α → Prop where
  | done {a : α} {c' : Catalogue} (grown : Grown c.registry c'.registry) (holds : post a c') :
      Outcome c post (.ok a c')
  | refused {e : DefinitionError} {c' : Catalogue} (grown : Grown c.registry c'.registry)
      (kept : c'.registry.properties = c.registry.properties) : Outcome c post (.error e c')

namespace Outcome

variable {c : Catalogue} {post : α → Catalogue → Prop} {post' : β → Catalogue → Prop}

/-- An answer at hand is an outcome if it meets the condition. -/
theorem pure {a : α} (h : post a c) : Outcome c post ((Pure.pure a : Define α) c) :=
  .done .refl h

/-- So is a refusal before anything was done. -/
theorem throw (e : DefinitionError) :
    Outcome c post ((MonadExcept.throw e : Define α) c) :=
  .refused .refl rfl

/-- Two pieces of work, the first of which adds no property. -/
theorem bind {x : Define α} {f : α → Define β} (hx : Outcome c post (x c))
    (hkept : ∀ a c', post a c' → c'.registry.properties = c.registry.properties)
    (hf : ∀ a c', Grown c.registry c'.registry → post a c' → Outcome c' post' (f a c')) :
    Outcome c post' ((x >>= f) c) := by
  simp only [Bind.bind, EStateM.bind]
  cases hrun : x c with
  | error e c' =>
    rw [hrun] at hx
    cases hx with
    | refused grown kept => exact .refused grown kept
  | ok a c' =>
    rw [hrun] at hx
    cases hx with
    | done grown holds =>
      dsimp only
      have hrest := hf a c' grown holds
      cases hrun' : f a c' with
      | ok b c'' =>
        rw [hrun'] at hrest
        cases hrest with
        | done grown' holds' => exact .done (grown.trans grown') holds'
      | error e c'' =>
        rw [hrun'] at hrest
        cases hrest with
        | refused grown' kept => exact .refused (grown.trans grown') (kept.trans (hkept a c' holds))

/-- Work that is followed by work that is never refused and leaves the registry alone. -/
theorem andThen {x : Define α} {f : α → Define β} (hx : Outcome c post (x c))
    (hf : ∀ a c', post a c' →
      ∃ b c'', f a c' = .ok b c'' ∧ c''.registry = c'.registry ∧ post' b c'') :
    Outcome c post' ((x >>= f) c) := by
  simp only [Bind.bind, EStateM.bind]
  cases hrun : x c with
  | error e c' =>
    rw [hrun] at hx
    cases hx with
    | refused grown kept => exact .refused grown kept
  | ok a c' =>
    rw [hrun] at hx
    cases hx with
    | done grown holds =>
      obtain ⟨b, c'', hrest, heq, holds'⟩ := hf a c' holds
      dsimp only
      rw [hrest]
      refine .done ?_ holds'
      rw [heq]
      exact grown

end Outcome

/-- To look at the catalogue does nothing to it. -/
theorem get_bind (f : Catalogue → Define α) (c : Catalogue) :
    ((get : Define Catalogue) >>= f) c = f c c := rfl

/-- A method is added unless its type has one of the same signature. -/
theorem method_apply (on : Ty) (d : MethodDefinition) (c : Catalogue) :
    method on d c =
      if (c.registry.methodsOf on).any fun m => m.hasSignature d.name d.parameters then
        .error (.duplicateMethod d.name on) c
      else
        .ok (d.member c.nextHandle on)
          { c with
            registry.methods := c.registry.methods ++ [d.member c.nextHandle on]
            nextHandle := c.nextHandle + 1 } := by
  unfold method
  rw [get_bind]
  split <;> rfl

variable {c : Catalogue} {on : Ty}

/-- A method that its type lacks is new in the whole registry. -/
theorem fresh_of_methodsOf {d : MethodDefinition} {handle : Nat}
    (h : ¬ (c.registry.methodsOf on).any (fun m => m.hasSignature d.name d.parameters) = true) :
    (d.member handle on).signature ∉ c.registry.methods.map Method.signature :=
  mt Registry.any_hasSignature_iff.mpr h

/-- A method that is defined is new and as described, and no property is added with it. -/
theorem method_outcome (d : MethodDefinition) :
    Outcome c (fun m c' => m ∈ c'.registry.methods ∧ m ∉ c.registry.methods ∧
      (∃ handle, m = d.member handle on) ∧ c'.registry.properties = c.registry.properties)
      (method on d c) := by
  rw [method_apply]
  split
  · exact .throw _
  · rename_i h
    have fresh : (d.member c.nextHandle on).signature ∉ c.registry.methods.map Method.signature :=
      fresh_of_methodsOf h
    refine .done (Registry.Growth.method _ fresh).grown ⟨?_, ?_, ⟨_, rfl⟩, rfl⟩
    · simp
    · exact fun hmem => fresh (List.mem_map_of_mem hmem)

/-- What is generated as an accessor: nothing, or a new method of the registry generated as such. -/
theorem accessor_outcome (wanted : Bool) (role : Role) (name : String) (index : List Ty) (value : Ty)
    (static : Bool) :
    Outcome c (fun a c' => (a = .absent ∨ ∃ m ∈ c'.registry.methods, a = .method m ∧
        ∃ handle, m = (accessorDefinition role name index value static).member handle on) ∧
      (∀ m, a = .method m → m ∉ c.registry.methods) ∧
      c'.registry.properties = c.registry.properties)
      (accessor wanted role on name index value static c) := by
  unfold accessor
  cases wanted with
  | false => exact .pure ⟨.inl rfl, nofun, rfl⟩
  | true =>
    rw [if_pos rfl]
    refine (method_outcome _).bind (fun m c' h => h.2.2.2) ?_
    rintro m c' - ⟨hm, fresh, generated, kept⟩
    refine .pure ⟨.inr ⟨m, hm, rfl, generated⟩, ?_, kept⟩
    rintro m' ⟨⟩
    exact fresh

/-- A property that is added is the last one, and its accessors were added for it. -/
theorem backed_outcome {name : String} {index : List Ty} {type : Ty}
    {getter setter isPublic static : Bool}
    (fresh : (on, name, index) ∉ c.registry.properties.map Property.signature)
    (instanced : index ≠ [] → static = false) :
    Outcome c (fun p c' => c'.registry.properties = c.registry.properties ++ [p] ∧
        p.BackedAnew c.registry)
      (backed on name index type getter setter isPublic static c) := by
  unfold backed
  refine (accessor_outcome _ _ _ _ _ _).bind (fun _ _ h => h.2.2) ?_
  rintro get c₁ grown₁ ⟨hget, newGet, kept₁⟩
  refine (@accessor_outcome c₁ on setter .setter name index type static).bind
    (fun _ _ h => h.2.2) ?_
  rintro set c₂ grown₂ ⟨hset, newSet, kept₂⟩
  -- Generating accessors adds no property, so the property is as fresh now as it was before.
  have kept := kept₂.trans kept₁
  let p : Property := ⟨c₂.nextHandle, name, on, type, index, get, set, isPublic, static⟩
  have hp : Registry.Growth c₂.registry
      { c₂.registry with properties := c₂.registry.properties ++ [p] } := by
    refine .property p ?_ ?_ ?_
    · rw [kept]
      exact fresh
    · rintro (_ | _)
      · exact Property.Backed.mono hget grown₂.methods_subset
      · exact hset
    · simpa [p, Property.isIndexer] using instanced
  refine .done hp.grown ⟨?_, ?_⟩
  · show c₂.registry.properties ++ [p] = _
    rw [kept]
  · rintro (_ | _) m hm
    · exact newGet m hm
    · exact fun hmem => newSet m hm (grown₁.methods_subset hmem)

/-- A property is added unless its type has a property of the same name that is no indexer. -/
theorem property_apply (on : Ty) (d : PropertyDefinition) (c : Catalogue) :
    property on d c =
      if (c.registry.propertiesOf on).any fun p => p.name == d.name && !p.isIndexer then
        .error (.duplicateProperty d.name on) c
      else (do
        let p ← backed on d.name [] d.type d.getter d.setter d.isPublic d.static
        record (.definedProperty on d.name d.type)
        return p : Define Property) c := by
  unfold property
  rw [get_bind]
  split <;> rfl

/-- An indexer with index types is added unless its type has a property of the same name and index
types. -/
theorem indexer_apply (on : Ty) (d : IndexerDefinition) (c : Catalogue) :
    indexer on d c =
      if d.index.isEmpty then .error (.noIndex d.name on) c
      else if (c.registry.propertiesOf on).any fun p => p.name == d.name && p.index == d.index then
        .error (.duplicateIndexer d.name d.index on) c
      else (do
        let p ← backed on d.name d.index d.type d.getter d.setter d.isPublic false
        record (.definedIndexer on d.name d.index d.type)
        return p : Define Property) c := by
  unfold indexer
  by_cases hindex : d.index.isEmpty = true
  · rw [if_pos hindex, if_pos hindex]
    rfl
  · rw [if_neg hindex, if_neg hindex]
    dsimp only
    rw [get_bind]
    split <;> rfl

/-- A property that its type lacks is new in the whole registry. -/
theorem fresh_of_propertiesOf {name : String} {index : List Ty}
    (h : ∀ p ∈ c.registry.propertiesOf on, p.name = name → p.index ≠ index) :
    (on, name, index) ∉ c.registry.properties.map Property.signature := by
  intro hmem
  obtain ⟨p, hp, heq⟩ := List.mem_map.mp hmem
  simp only [Property.signature, Prod.mk.injEq] at heq
  obtain ⟨hon, hname, hindex⟩ := heq
  refine h p ?_ hname hindex
  simp [Registry.propertiesOf, hp, hon]

/-- A property that is defined is the last one, and its accessors were added for it. -/
theorem property_outcome (d : PropertyDefinition) :
    Outcome c (fun p c' => c'.registry.properties = c.registry.properties ++ [p] ∧
        p.BackedAnew c.registry)
      (property on d c) := by
  rw [property_apply]
  split
  · exact .throw _
  · rename_i h
    refine (backed_outcome (fresh_of_propertiesOf ?_) (by simp)).andThen
      fun p c' h => ⟨p, _, rfl, rfl, h⟩
    intro p hp hname hindex
    refine h (List.any_eq_true.mpr ⟨p, hp, ?_⟩)
    simp [Property.isIndexer, hname, hindex]

/-- The same is true of an indexer. -/
theorem indexer_outcome (d : IndexerDefinition) :
    Outcome c (fun p c' => c'.registry.properties = c.registry.properties ++ [p] ∧
        p.BackedAnew c.registry)
      (indexer on d c) := by
  rw [indexer_apply]
  split
  · exact .throw _
  split
  · exact .throw _
  · rename_i h
    refine (backed_outcome (fresh_of_propertiesOf ?_) (fun _ => rfl)).andThen
      fun p c' h => ⟨p, _, rfl, rfl, h⟩
    intro p hp hname hindex
    refine h (List.any_eq_true.mpr ⟨p, hp, ?_⟩)
    simp [hname, hindex]

end Define

/-- A definition adds the property that it returns, if it returns one, and no other. What backs it
was generated by the definition. -/
theorem Definition.perform_outcome (d : Definition) (c : Catalogue) :
    Define.Outcome c
      (fun member c' => c'.registry.properties = c.registry.properties ++ member.property?.toList ∧
        ∀ p, member = .property p → p.BackedAnew c.registry)
      (d.perform c) := by
  cases d with
  | property on d =>
    rw [perform, ← bind_pure_comp]
    refine (Define.property_outcome d).andThen fun p c' h => ⟨_, _, rfl, rfl, h.1, ?_⟩
    rintro p' ⟨⟩
    exact h.2
  | indexer on d =>
    rw [perform, ← bind_pure_comp]
    refine (Define.indexer_outcome d).andThen fun p c' h => ⟨_, _, rfl, rfl, h.1, ?_⟩
    rintro p' ⟨⟩
    exact h.2
  | method on d =>
    rw [perform, ← bind_pure_comp]
    refine (Define.method_outcome d).andThen fun m c' h => ⟨_, _, rfl, rfl, ?_, nofun⟩
    rw [h.2.2.2]
    exact (List.append_nil _).symm

namespace Catalogue

open Registry (Grown)

/-- A step only lets the registry grow, and the property that it returns is added at the end, with
accessors that were not there before. -/
theorem step_grown (c : Catalogue) (s : Step) :
    Grown c.registry (c.step s).registry ∧
      (c.step s).registry.properties = c.registry.properties ++ (c.returns? s).toList ∧
      ∀ p, c.returns? s = some p → p.BackedAnew c.registry := by
  cases s with
  | skip handles => exact ⟨.refl, (List.append_nil _).symm, nofun⟩
  | define d =>
    have houtcome := d.perform_outcome c
    simp only [step, after, returns?]
    cases hrun : d.perform c with
    | ok member c' =>
      rw [hrun] at houtcome
      cases houtcome with
      | done grown holds =>
        obtain ⟨added, anew⟩ := holds
        cases member with
        | absent | method m => exact ⟨grown, added, nofun⟩
        | property p =>
          refine ⟨grown, added, ?_⟩
          rintro p' ⟨⟩
          exact anew p rfl
    | error e c' =>
      rw [hrun] at houtcome
      cases houtcome with
      | refused grown kept => exact ⟨grown, kept.trans (List.append_nil _).symm, nofun⟩

/-- Over a history the registry grows. -/
theorem run_grown (c : Catalogue) (steps : List Step) : Grown c.registry (c.run steps).registry := by
  induction steps generalizing c with
  | nil => exact .refl
  | cons s steps ih => exact (step_grown c s).1.trans (ih _)

/-- A reachable registry has grown from the empty one. -/
theorem Reachable.grown {c : Catalogue} (h : Reachable c) : Grown .empty c.registry := by
  obtain ⟨n, steps, rfl⟩ := (reachable_iff_exists_run c).mp h
  exact run_grown (Catalogue.start n) steps

/-- The properties of a registry are those it had and those returned since. -/
theorem properties_run (c : Catalogue) (steps : List Step) :
    (c.run steps).registry.properties = c.registry.properties ++ c.returned steps := by
  induction steps generalizing c with
  | nil => exact (List.append_nil _).symm
  | cons s steps ih => rw [run, ih, (step_grown c s).2.1, returned, List.append_assoc]

end Catalogue

end CanonicalAccess
