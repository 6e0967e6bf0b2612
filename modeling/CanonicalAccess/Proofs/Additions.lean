import CanonicalAccess.Proofs.Growth

/-!
# What definitions add

A definition checks first whether it may be made at all, and then adds its methods one after the
other: the accessors that are wanted, the getter before the setter, or the method itself. It stops
at the first whose signature is taken, and those before it stay. Only when all of them are added
comes the property.

`perform_ends` says so of every definition in every catalogue. Hence a definition succeeds exactly
if it is admitted and none of its methods is there already (`succeeds_iff`).
-/

set_option autoImplicit false

namespace CanonicalAccess

namespace Catalogue

/-- The catalogue with a method more. -/
def withMethod (c : Catalogue) (on : Ty) (d : MethodDefinition) : Catalogue :=
  { c with
    registry.methods := c.registry.methods ++ [d.member c.nextHandle on]
    nextHandle := c.nextHandle + 1 }

/-- The catalogue with some methods more. -/
def withMethods (c : Catalogue) (on : Ty) : List MethodDefinition → Catalogue
  | [] => c
  | d :: ds => (c.withMethod on d).withMethods on ds

/-- Methods are added in any number of portions. -/
theorem withMethods_append (c : Catalogue) (on : Ty) (ds ds' : List MethodDefinition) :
    c.withMethods on (ds ++ ds') = (c.withMethods on ds).withMethods on ds' := by
  induction ds generalizing c with
  | nil => rfl
  | cons d ds ih => exact ih (c.withMethod on d)

/-- What is there after some methods were added was there before or is one of them. -/
theorem mem_withMethods {c : Catalogue} {on : Ty} {ds : List MethodDefinition} {m : Method}
    (h : m ∈ (c.withMethods on ds).registry.methods) :
    m ∈ c.registry.methods ∨ ∃ d ∈ ds, ∃ handle, m = d.member handle on := by
  induction ds generalizing c with
  | nil => exact .inl h
  | cons d ds ih =>
    rcases ih h with hm | ⟨d', hd', hmember⟩
    · rcases List.mem_append.mp hm with hm | hm
      · exact .inl hm
      · exact .inr ⟨d, List.mem_cons_self, _, List.mem_singleton.mp hm⟩
    · exact .inr ⟨d', List.mem_cons_of_mem d hd', hmember⟩

/-- Methods that were added are there besides those that were there already. -/
theorem declares_withMethods {c : Catalogue} {on on' : Ty} {ds : List MethodDefinition}
    {d : MethodDefinition} :
    (c.withMethods on ds).registry.Declares on' d ↔
      c.registry.Declares on' d ∨ ∃ d' ∈ ds, d'.signature on = d.signature on' := by
  induction ds generalizing c with
  | nil => simp [withMethods]
  | cons d' ds ih =>
    have hone : (c.withMethod on d').registry.Declares on' d ↔
        c.registry.Declares on' d ∨ d'.signature on = d.signature on' := by
      simp only [Registry.Declares, withMethod, List.map_append, List.map_singleton,
        List.mem_append, List.mem_singleton]
      exact or_congr_right eq_comm
    simp only [withMethods, ih, hone, List.mem_cons, exists_eq_or_imp, or_assoc]

/-- Methods of other signatures make no difference to whether a method is there already. -/
theorem declares_withMethods_of_apart {c : Catalogue} {on : Ty} {ds : List MethodDefinition}
    {d : MethodDefinition} (apart : ∀ d' ∈ ds, d'.signature on ≠ d.signature on) :
    (c.withMethods on ds).registry.Declares on d ↔ c.registry.Declares on d := by
  rw [declares_withMethods, or_iff_left_iff_imp]
  rintro ⟨d', hd', heq⟩
  exact absurd heq (apart d' hd')

end Catalogue

namespace Define

variable {α β : Type} {c : Catalogue} {on : Ty} {ds ds' : List MethodDefinition}

/-- How it ends to add some methods: all of them are new, and the answer meets a condition, or the
first that is there already is refused and those before it have been added. -/
inductive Adds (c : Catalogue) (on : Ty) (ds : List MethodDefinition)
    (post : α → Catalogue → Prop) : EStateM.Result DefinitionError Catalogue α → Prop where
  | done {a : α} {c' : Catalogue} (fresh : ∀ d ∈ ds, ¬ c.registry.Declares on d)
      (holds : post a c') : Adds c on ds post (.ok a c')
  | stopped {before after : List MethodDefinition} {d : MethodDefinition}
      (split : ds = before ++ d :: after) (fresh : ∀ d' ∈ before, ¬ c.registry.Declares on d')
      (declared : c.registry.Declares on d) :
      Adds c on ds post (.error (.duplicateMethod d.name on) (c.withMethods on before))

namespace Adds

variable {post' : β → Catalogue → Prop}

/-- Methods are added after others of other signatures. -/
theorem bind {x : Define α} {f : α → Define β}
    (hx : Adds c on ds (fun _ c' => c' = c.withMethods on ds) (x c))
    (hf : ∀ a, Adds (c.withMethods on ds) on ds' post' (f a (c.withMethods on ds)))
    (apart : ∀ d ∈ ds, ∀ d' ∈ ds', d.signature on ≠ d'.signature on) :
    Adds c on (ds ++ ds') post' ((x >>= f) c) := by
  -- The methods added first do not stand in the way of the others.
  have hdeclares : ∀ d' ∈ ds', (c.withMethods on ds).registry.Declares on d' ↔
      c.registry.Declares on d' :=
    fun d' hd' => Catalogue.declares_withMethods_of_apart fun d hd => apart d hd d' hd'
  simp only [Bind.bind, EStateM.bind]
  cases hrun : x c with
  | error e c' =>
    rw [hrun] at hx
    cases hx with
    | @stopped before after d split fresh declared =>
      have hsplit : ds ++ ds' = before ++ d :: (after ++ ds') := by
        rw [split, List.append_assoc, List.cons_append]
      exact .stopped hsplit fresh declared
  | ok a c' =>
    rw [hrun] at hx
    cases hx with
    | done fresh holds =>
      subst holds
      dsimp only
      have hrest := hf a
      cases hrun' : f a (c.withMethods on ds) with
      | ok b c'' =>
        rw [hrun'] at hrest
        cases hrest with
        | done fresh' holds' =>
          refine .done ?_ holds'
          intro d hd
          rcases List.mem_append.mp hd with hd | hd
          · exact fresh d hd
          · rw [← hdeclares d hd]
            exact fresh' d hd
      | error e c'' =>
        rw [hrun'] at hrest
        cases hrest with
        | @stopped before after d' split fresh' declared =>
          have hsplit : ds ++ ds' = (ds ++ before) ++ d' :: after := by
            rw [split, List.append_assoc]
          rw [← Catalogue.withMethods_append]
          refine .stopped hsplit ?_ ?_
          · intro d hd
            rcases List.mem_append.mp hd with hd | hd
            · exact fresh d hd
            · rw [← hdeclares d (by simp [split, hd])]
              exact fresh' d hd
          · rwa [← hdeclares _ (by simp [split])]

/-- Work that is followed by work that is never refused. -/
theorem andThen {post : α → Catalogue → Prop} {x : Define α} {f : α → Define β}
    (hx : Adds c on ds post (x c))
    (hf : ∀ a c', post a c' → ∃ b c'', f a c' = .ok b c'' ∧ post' b c'') :
    Adds c on ds post' ((x >>= f) c) := by
  simp only [Bind.bind, EStateM.bind]
  cases hrun : x c with
  | error e c' =>
    rw [hrun] at hx
    cases hx with
    | stopped split fresh declared => exact .stopped split fresh declared
  | ok a c' =>
    rw [hrun] at hx
    cases hx with
    | done fresh holds =>
      obtain ⟨b, c'', hrest, holds'⟩ := hf a c' holds
      dsimp only
      rw [hrest]
      exact .done fresh holds'

end Adds

/-- Defining a method adds it, or stops because it is there already. -/
theorem method_adds (d : MethodDefinition) :
    Adds c on [d] (fun _ c' => c' = c.withMethods on [d]) (method on d c) := by
  rw [method_apply]
  by_cases hdeclared : c.registry.Declares on d
  · rw [if_pos (Registry.any_hasSignature_iff.mpr hdeclared)]
    exact .stopped (List.nil_append _).symm (by simp) hdeclared
  · rw [if_neg (mt Registry.any_hasSignature_iff.mp hdeclared)]
    exact .done (by simpa using hdeclared) rfl

/-- The accessors that are wanted for a property, in the order in which they are added. -/
def accessorDefinitions (getter setter : Bool) (name : String) (index : List Ty) (value : Ty)
    (static : Bool) : List MethodDefinition :=
  (if getter then [accessorDefinition .getter name index value static] else []) ++
    if setter then [accessorDefinition .setter name index value static] else []

/-- Generating an accessor adds it if it is wanted, or stops because it is there already. -/
theorem accessor_adds (wanted : Bool) (role : Role) (name : String) (index : List Ty) (value : Ty)
    (static : Bool) :
    let ds := if wanted then [accessorDefinition role name index value static] else []
    Adds c on ds (fun _ c' => c' = c.withMethods on ds)
      (accessor wanted role on name index value static c) := by
  cases wanted with
  | false => exact .done (by simp) rfl
  | true => exact (method_adds _).andThen fun m c' h => ⟨_, c', rfl, h⟩

/-- What is added for a property are its accessors. -/
theorem exists_role_of_mem {getter setter : Bool} {name : String} {index : List Ty} {value : Ty}
    {static : Bool} {d : MethodDefinition}
    (h : d ∈ accessorDefinitions getter setter name index value static) :
    ∃ role, d = accessorDefinition role name index value static := by
  rw [accessorDefinitions, List.mem_append] at h
  rcases h with h | h
  · exact ⟨.getter, (List.mem_ite_nil_right.mp h).2 |> List.mem_singleton.mp⟩
  · exact ⟨.setter, (List.mem_ite_nil_right.mp h).2 |> List.mem_singleton.mp⟩

/-- No getter has the signature of a setter. -/
theorem accessorDefinition_apart (name : String) (index : List Ty) (value : Ty) (static : Bool) :
    (accessorDefinition .getter name index value static).signature on ≠
      (accessorDefinition .setter name index value static).signature on := by
  intro h
  exact Role.noConfusion (accessorDefinition_determined h).1

/-- When its accessors have been added, a property is added for which they were generated. -/
theorem backed_adds (name : String) (index : List Ty) (type : Ty)
    (getter setter isPublic static : Bool) :
    let ds := accessorDefinitions getter setter name index type static
    Adds c on ds (fun _ c' => c'.registry.methods = (c.withMethods on ds).registry.methods ∧
        ∀ d ∈ ds, ∀ handle, ∃ p ∈ c'.registry.properties, ∃ role,
          p.Generates role (d.member handle on))
      (backed on name index type getter setter isPublic static c) := by
  unfold backed accessorDefinitions
  refine (accessor_adds getter .getter name index type static).bind ?_ ?_
  · intro get
    refine (accessor_adds setter .setter name index type static).andThen fun set c' h => ?_
    refine ⟨_, _, rfl, ?_, ?_⟩
    · rw [Catalogue.withMethods_append, ← h]
    · intro d hd handle
      obtain ⟨role, rfl⟩ := exists_role_of_mem hd
      exact ⟨_, List.mem_concat_self, role, handle, rfl⟩
  · intro d hd d' hd'
    cases getter <;> cases setter <;> simp only [Bool.false_eq_true, if_true, if_false,
      List.not_mem_nil, List.mem_singleton] at hd hd'
    rw [hd, hd']
    exact accessorDefinition_apart name index type static

end Define

namespace Definition

/-- The type on which a definition is made. -/
def on : Definition → Ty
  | property on _ | indexer on _ | method on _ => .ofClass on

/-- The methods that a definition adds, in order. -/
def methods : Definition → List MethodDefinition
  | property _ d => Define.accessorDefinitions d.getter d.setter d.name [] d.type d.static
  | indexer _ d => Define.accessorDefinitions d.getter d.setter d.name d.index d.type false
  | method _ d => [d]

/-- A definition passes the check that comes before it adds anything: its type has no property of
the name that is no indexer, or no indexer of the name and the index types, of which there must be
some. A method has its own check only. -/
def Admitted (r : Registry) : Definition → Prop
  | property on d => ∀ p ∈ r.propertiesOf (.ofClass on), p.name = d.name → p.isIndexer = true
  | indexer on d =>
    d.index ≠ [] ∧ ∀ p ∈ r.propertiesOf (.ofClass on), p.name = d.name → p.index ≠ d.index
  | method _ _ => True

/-- A definition generates the methods that it adds as accessors. -/
def Generative : Definition → Prop
  | property _ _ | indexer _ _ => True
  | method _ _ => False

/-- What a definition that is carried out has added: its methods, and the property for which they
were generated if they were. -/
structure Added (d : Definition) (c c' : Catalogue) : Prop where
  methods : c'.registry.methods = (c.withMethods d.on d.methods).registry.methods
  generated : d.Generative → ∀ m ∈ d.methods, ∀ handle, ∃ p ∈ c'.registry.properties, ∃ role,
    p.Generates role (m.member handle d.on)

/-- How a definition ends: it is carried out, or it is not admitted and changes nothing, or a method
of it is there already and only those before that have been added. -/
inductive Ends (d : Definition) (c : Catalogue) :
    EStateM.Result DefinitionError Catalogue Member → Prop where
  | done {member : Member} {c' : Catalogue} (admitted : d.Admitted c.registry)
      (fresh : ∀ m ∈ d.methods, ¬ c.registry.Declares d.on m) (added : d.Added c c') :
      Ends d c (.ok member c')
  | notAdmitted {e : DefinitionError} (h : ¬ d.Admitted c.registry) : Ends d c (.error e c)
  | stopped {before after : List MethodDefinition} {m : MethodDefinition}
      (admitted : d.Admitted c.registry) (split : d.methods = before ++ m :: after)
      (fresh : ∀ m' ∈ before, ¬ c.registry.Declares d.on m')
      (declared : c.registry.Declares d.on m) :
      Ends d c (.error (.duplicateMethod m.name d.on) (c.withMethods d.on before))

/-- A property is admitted exactly if no plain property of its type has its name. -/
theorem admitted_property_iff {r : Registry} {on : String} {d : PropertyDefinition} :
    (property on d).Admitted r ↔ ¬ ((r.propertiesOf (.ofClass on)).any
      fun p => p.name == d.name && !p.isIndexer) = true := by
  simp [Admitted]

/-- An indexer is admitted exactly if it has index types and no property of its type has its name
and those index types. -/
theorem admitted_indexer_iff {r : Registry} {on : String} {d : IndexerDefinition} :
    (indexer on d).Admitted r ↔ ¬ d.index.isEmpty = true ∧ ¬ ((r.propertiesOf (.ofClass on)).any
      fun p => p.name == d.name && p.index == d.index) = true := by
  simp [Admitted]

/-- A definition that is not admitted is refused and changes nothing. -/
theorem perform_of_not_admitted {d : Definition} {c : Catalogue} (h : ¬ d.Admitted c.registry) :
    ∃ e, d.perform c = .error e c := by
  cases d with
  | property on d =>
    rw [admitted_property_iff, Classical.not_not] at h
    refine ⟨.duplicateProperty d.name (.ofClass on), ?_⟩
    rw [perform, ← bind_pure_comp]
    simp only [Bind.bind, EStateM.bind, Define.property_apply, if_pos h]
  | indexer on d =>
    rw [admitted_indexer_iff, Classical.not_and_iff_not_or_not, Classical.not_not,
      Classical.not_not] at h
    rw [perform, ← bind_pure_comp]
    by_cases hindex : d.index.isEmpty = true
    · refine ⟨.noIndex d.name (.ofClass on), ?_⟩
      simp only [Bind.bind, EStateM.bind, Define.indexer_apply, if_pos hindex]
    · refine ⟨.duplicateIndexer d.name d.index (.ofClass on), ?_⟩
      simp only [Bind.bind, EStateM.bind, Define.indexer_apply, if_neg hindex,
        if_pos (h.resolve_left hindex)]
  | method on d => exact absurd trivial h

/-- A definition that is admitted adds its methods. -/
theorem perform_adds {d : Definition} {c : Catalogue} (h : d.Admitted c.registry) :
    Define.Adds c d.on d.methods (fun _ c' => d.Added c c') (d.perform c) := by
  cases d with
  | property on d =>
    rw [admitted_property_iff] at h
    have hadds : Define.Adds c (.ofClass on) (property on d).methods
        (fun _ c' => (property on d).Added c c') (Define.property (.ofClass on) d c) := by
      rw [Define.property_apply, if_neg h]
      exact (Define.backed_adds _ _ _ _ _ _ _).andThen fun p c' h =>
        ⟨p, _, rfl, h.1, fun _ => h.2⟩
    rw [perform, ← bind_pure_comp]
    exact hadds.andThen fun p c' added => ⟨_, c', rfl, added⟩
  | indexer on d =>
    rw [admitted_indexer_iff] at h
    have hadds : Define.Adds c (.ofClass on) (indexer on d).methods
        (fun _ c' => (indexer on d).Added c c') (Define.indexer (.ofClass on) d c) := by
      rw [Define.indexer_apply, if_neg h.1, if_neg h.2]
      exact (Define.backed_adds _ _ _ _ _ _ _).andThen fun p c' h =>
        ⟨p, _, rfl, h.1, fun _ => h.2⟩
    rw [perform, ← bind_pure_comp]
    exact hadds.andThen fun p c' added => ⟨_, c', rfl, added⟩
  | method on d =>
    rw [perform, ← bind_pure_comp]
    refine (Define.method_adds d).andThen fun m c' h => ⟨_, c', rfl, ?_, False.elim⟩
    rw [h]
    rfl

/-- Every definition ends so. -/
theorem perform_ends (d : Definition) (c : Catalogue) : d.Ends c (d.perform c) := by
  by_cases admitted : d.Admitted c.registry
  · have hadds := perform_adds admitted
    generalize d.perform c = result at hadds
    cases hadds with
    | done fresh added => exact .done admitted fresh added
    | stopped split fresh declared => exact .stopped admitted split fresh declared
  · obtain ⟨e, hrefused⟩ := perform_of_not_admitted admitted
    rw [hrefused]
    exact .notAdmitted admitted

/-- A definition is carried out. -/
def Succeeds (d : Definition) (c : Catalogue) : Prop := ∃ member c', d.perform c = .ok member c'

/-- A definition is carried out exactly if it is admitted and none of its methods is there already.
-/
theorem succeeds_iff {d : Definition} {c : Catalogue} :
    d.Succeeds c ↔
      d.Admitted c.registry ∧ ∀ m ∈ d.methods, ¬ c.registry.Declares d.on m := by
  have hends := d.perform_ends c
  constructor
  · rintro ⟨member, c', hrun⟩
    rw [hrun] at hends
    cases hends with
    | done admitted fresh added => exact ⟨admitted, fresh⟩
  · rintro ⟨admitted, fresh⟩
    unfold Succeeds
    generalize d.perform c = result at hends
    cases hends with
    | @done member c' _ _ _ => exact ⟨member, c', rfl⟩
    | notAdmitted h => exact absurd admitted h
    | @stopped _ _ m _ split _ declared => exact absurd declared (fresh m (by simp [split]))

end Definition

end CanonicalAccess
