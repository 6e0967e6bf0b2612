import CanonicalAccess.Normalization.RoundTrip
import CanonicalAccess.Proofs.Growth
import Mathlib.Data.List.Nodup

/-!
# Sound registries

In a sound registry no two methods have the same signature and no two properties have, and what
backs a property was generated for it. Every reachable registry is sound, whatever was refused on
the way.

In a sound registry a question has one answer at most, and a method is the accessor of one property
at most, in one role. So one can say exactly where a call leads (`leadsTo_iff`).
-/

set_option autoImplicit false

namespace CanonicalAccess

namespace Registry

structure Sound (r : Registry) : Prop where
  methods : (r.methods.map Method.signature).Nodup
  properties : (r.properties.map Property.signature).Nodup
  backed : ∀ p ∈ r.properties, ∀ role, p.Backed role r.methods
  instanced : ∀ p ∈ r.properties, p.isIndexer = true → p.static = false

/-- The empty registry is sound. -/
theorem sound_empty : Sound .empty where
  methods := List.nodup_nil
  properties := List.nodup_nil
  backed := by simp [empty]
  instanced := by simp [empty]

/-- Images stay distinct when one is added that was not among them. -/
theorem nodup_map_concat {α β : Type} {f : α → β} {as : List α} {a : α} (h : (as.map f).Nodup)
    (fresh : f a ∉ as.map f) : ((as ++ [a]).map f).Nodup := by
  rw [List.map_append, List.map_singleton, ← List.concat_eq_append]
  exact h.concat fresh

/-- One more member keeps a registry sound. -/
theorem Growth.sound {r r' : Registry} (h : Growth r r') (hr : r.Sound) : r'.Sound := by
  cases h with
  | method m fresh =>
    refine ⟨nodup_map_concat hr.methods fresh, hr.properties, ?_, hr.instanced⟩
    intro p hp role
    exact (hr.backed p hp role).mono (List.subset_append_left _ _)
  | property p fresh backed instanced =>
    refine ⟨hr.methods, nodup_map_concat hr.properties fresh, ?_, ?_⟩
    · rintro q hq role
      rcases List.mem_append.mp hq with hq | hq
      · exact hr.backed q hq role
      · rw [List.mem_singleton.mp hq]
        exact backed role
    · rintro q hq
      rcases List.mem_append.mp hq with hq | hq
      · exact hr.instanced q hq
      · rw [List.mem_singleton.mp hq]
        exact instanced

/-- Growth keeps a registry sound. -/
theorem Grown.sound {r r' : Registry} (h : Grown r r') (hr : r.Sound) : r'.Sound := by
  induction h with
  | refl => exact hr
  | tail _ growth ih => exact growth.sound ih

end Registry

/-- No sequence of definitions leads to a registry that is not sound. -/
theorem Catalogue.Reachable.sound {c : Catalogue} (h : c.Reachable) : c.registry.Sound :=
  h.grown.sound Registry.sound_empty

/-! ### Answers -/

/-- The signature of the properties that can answer a question. -/
def Query.signature : Query → Ty × String × List Ty
  | .property on name => (on, name, [])
  | .indexer on name _ index => (on, name, index)

/-- What answers a question has the signature that is asked for. -/
theorem Property.signature_of_answers {p : Property} {q : Query}
    (subject : p.declaringType = q.subject) (h : p.answers q = true) :
    p.signature = q.signature := by
  cases q <;>
    simp_all [answers, isIndexer, signature, Query.signature, Query.subject]

namespace Registry

/-- Properties of a sound registry are told apart by their signatures. -/
theorem Sound.eq_of_signature {r : Registry} (hr : r.Sound) {p q : Property}
    (hp : p ∈ r.properties) (hq : q ∈ r.properties) (h : p.signature = q.signature) : p = q :=
  List.inj_on_of_nodup_map hr.properties hp hq h

/-- In a sound registry a property that could be the answer to a question is the answer. -/
theorem Sound.answer?_eq_some_iff {r : Registry} (hr : r.Sound) {q : Query} {p : Property} :
    r.answer? q = some p ↔
      p ∈ r.properties ∧ p.declaringType = q.subject ∧ p.answers q = true := by
  have hfound : ∀ p', r.answer? q = some p' →
      p' ∈ r.properties ∧ p'.declaringType = q.subject ∧ p'.answers q = true := by
    intro p' h
    rw [answer?] at h
    have hmem := List.mem_of_find?_eq_some h
    have hanswers := List.find?_some h
    simp only [propertiesOf, List.mem_filter, beq_iff_eq] at hmem
    exact ⟨hmem.1, hmem.2, hanswers⟩
  refine ⟨hfound p, ?_⟩
  rintro ⟨hp, subject, answers⟩
  cases h : r.answer? q with
  | none =>
    have hnone := List.find?_eq_none.mp h p (by simp [propertiesOf, hp, subject])
    exact absurd answers hnone
  | some p' =>
    obtain ⟨hp', subject', answers'⟩ := hfound p' h
    have hsignature := (Property.signature_of_answers subject' answers').trans
      (Property.signature_of_answers subject answers).symm
    rw [hr.eq_of_signature hp' hp hsignature]

end Registry

/-! ### Accessors -/

/-- Behind its marker the name of an accessor is the name of the property. -/
theorem afterMarker?_append (marker name : String) :
    afterMarker? marker (marker ++ name) = some name := by
  simp [afterMarker?, String.toList_append]

/-- Whether an access is to an indexer. -/
def Access.isIndexed : Access → Bool
  | .readProperty | .writeProperty => false
  | .readIndexer | .writeIndexer => true

/-- An access in some role has that role. -/
theorem Access.role_of_ofRole? {role : Role} {n : Nat} {a : Access}
    (h : Access.ofRole? role n = some a) : a.role = role := by
  match role, n with
  | .getter, 0 | .getter, n + 1 | .setter, 1 | .setter, n + 2 => cases h; rfl
  | .setter, 0 => cases h

/-- A call has the shape of an access if the method claims its role and takes it with as many
arguments. -/
theorem Method.access?_eq_some_iff {m : Method} {n : Nat} {a : Access} {name : String} :
    m.access? n = some (a, name) ↔
      m.claim? = some (a.role, name) ∧ Access.ofRole? a.role n = some a := by
  unfold access?
  cases hclaim : m.claim? with
  | none => simp
  | some claim =>
    obtain ⟨role, claimed⟩ := claim
    simp only [Option.map_eq_some_iff, Prod.mk.injEq, Option.some.injEq]
    constructor
    · rintro ⟨a', ha, rfl, rfl⟩
      rw [Access.role_of_ofRole? ha]
      exact ⟨⟨rfl, rfl⟩, ha⟩
    · rintro ⟨⟨rfl, rfl⟩, ha⟩
      exact ⟨a, ha, rfl, rfl⟩

namespace Property.Generates

variable {p q : Property} {role role' : Role} {m : Method} {a : Access}

/-- A generated accessor claims its role for its property. -/
theorem claim? (h : p.Generates role m) : m.claim? = some (role, p.name) := by
  obtain ⟨handle, rfl⟩ := h
  cases role with
  | getter =>
    simp [Method.claim?, MethodDefinition.member, Define.accessorDefinition, afterMarker?_append]
  | setter =>
    have hgetter : afterMarker? "get_" ("set_" ++ p.name) = none := by
      simp [afterMarker?, String.toList_append]
    simp only [Method.claim?, MethodDefinition.member, Define.accessorDefinition, Role.marker,
      hgetter, afterMarker?_append]
    rfl

/-- The question that leads back from a generated accessor. -/
theorem query? (h : p.Generates role m) (ha : a.role = role) (name : String) :
    m.query? a name = some (if a.isIndexed then .indexer p.declaringType name p.type p.index
      else .property p.declaringType name) := by
  obtain ⟨handle, rfl⟩ := h
  subst ha
  cases a <;>
    simp [Method.query?, MethodDefinition.member, Define.accessorDefinition, Access.role,
      Access.isIndexed]

/-- A generated getter takes the index, and a setter the value behind it. -/
theorem parameters (h : p.Generates role m) :
    m.parameters = match role with
      | .getter => p.index
      | .setter => p.index ++ [p.type] := by
  obtain ⟨handle, rfl⟩ := h
  cases role <;> rfl

/-- A method was generated for properties of one signature at most, and in one role. -/
theorem signature_eq (hp : p.Generates role m) (hq : q.Generates role' m) :
    role = role' ∧ p.signature = q.signature := by
  obtain ⟨handle, rfl⟩ := hp
  obtain ⟨handle', heq⟩ := hq
  have hsignature := congrArg Method.signature heq
  obtain ⟨hrole, htype, hname, hindex⟩ := Define.accessorDefinition_determined hsignature
  exact ⟨hrole, Prod.ext htype (Prod.ext hname hindex)⟩

/-- Called with as many arguments as it declares, a generated accessor is called in the shape of an
access to what it was generated for. -/
theorem exists_access (h : p.Generates role m) :
    ∃ a, m.access? m.parameters.length = some (a, p.name) ∧ a.role = role ∧
      a.isIndexed = p.isIndexer := by
  have hclaim := h.claim?
  have hparameters := h.parameters
  suffices hshape : ∃ a, Access.ofRole? role m.parameters.length = some a ∧
      a.isIndexed = p.isIndexer by
    obtain ⟨a, ha, hindexed⟩ := hshape
    have hrole := Access.role_of_ofRole? ha
    subst hrole
    exact ⟨a, Method.access?_eq_some_iff.mpr ⟨hclaim, ha⟩, rfl, hindexed⟩
  rw [hparameters]
  cases role with
  | getter =>
    cases hindex : p.index with
    | nil => exact ⟨.readProperty, rfl, by simp [Access.isIndexed, isIndexer, hindex]⟩
    | cons t ts => exact ⟨.readIndexer, rfl, by simp [Access.isIndexed, isIndexer, hindex]⟩
  | setter =>
    cases hindex : p.index with
    | nil => exact ⟨.writeProperty, rfl, by simp [Access.isIndexed, isIndexer, hindex]⟩
    | cons t ts =>
      refine ⟨.writeIndexer, ?_, by simp [Access.isIndexed, isIndexer, hindex]⟩
      simp [Access.ofRole?]

end Property.Generates

/-- The accessors of a property in a sound registry are methods of it that were generated for the
property. -/
theorem Registry.Sound.generates {r : Registry} (hr : r.Sound) {p : Property} {role : Role}
    {m : Method} (hp : p ∈ r.properties) (h : p.accessor role = .method m) :
    m ∈ r.methods ∧ p.Generates role m := by
  rcases hr.backed p hp role with habsent | ⟨m', hm', heq, hgenerates⟩
  · rw [habsent] at h
    cases h
  · rw [heq, Member.method.injEq] at h
    subst h
    exact ⟨hm', hgenerates⟩

/-- In a sound registry a method is the accessor of one property at most, and in one role. -/
theorem Registry.Sound.eq_of_accessor {r : Registry} (hr : r.Sound) {p q : Property}
    {role role' : Role} {m : Method} (hp : p ∈ r.properties) (hq : q ∈ r.properties)
    (h : p.accessor role = .method m) (h' : q.accessor role' = .method m) :
    p = q ∧ role = role' := by
  obtain ⟨hrole, hsignature⟩ := (hr.generates hp h).2.signature_eq (hr.generates hq h').2
  exact ⟨hr.eq_of_signature hp hq hsignature, hrole⟩

/-- The metadata leads from a call of a method with some number of arguments, in the shape of an
access, to a property that the method backs. -/
def Method.LeadsTo (provider : Provider) (m : Method) (arguments : Nat) (a : Access)
    (p : Property) : Prop :=
  ∃ name q, m.access? arguments = some (a, name) ∧ m.query? a name = some q ∧
    provider q = .ok (.property p) ∧ p.accessor a.role = .method m

/-- A call leads to one property at most, by one access. -/
theorem Method.LeadsTo.unique {provider : Provider} {m : Method} {n : Nat} {a a' : Access}
    {p p' : Property} (h : m.LeadsTo provider n a p) (h' : m.LeadsTo provider n a' p') :
    a = a' ∧ p = p' := by
  obtain ⟨name, q, shape, query, answer, -⟩ := h
  obtain ⟨name', q', shape', query', answer', -⟩ := h'
  obtain ⟨rfl, rfl⟩ : a = a' ∧ name = name' := by
    rw [shape, Option.some.injEq, Prod.mk.injEq] at shape'
    exact shape'
  obtain rfl : q = q' := Option.some.inj (query.symm.trans query')
  rw [answer, Except.ok.injEq, Member.property.injEq] at answer'
  exact ⟨rfl, answer'⟩

/-- Where a call leads in a sound registry: to the one property whose accessor is called, if the
call has the shape of an access to an indexer, or if the property is one of an instance. What the
shape of the access is depends on the number of arguments alone, so it may be that of an access to
an indexer although the property is none. -/
theorem Registry.Sound.leadsTo_iff {r : Registry} (hr : r.Sound) {m : Method} {n : Nat} {a : Access}
    {p : Property} :
    m.LeadsTo (Provider.ofRegistry r) n a p ↔
      p ∈ r.properties ∧ p.accessor a.role = .method m ∧ m.access? n = some (a, p.name) ∧
        (a.isIndexed = true ∨ p.isIndexer = false ∧ p.static = false) := by
  have hanswer : ∀ q, Provider.ofRegistry r q = .ok (.property p) ↔ r.answer? q = some p := by
    intro q
    unfold Provider.ofRegistry
    cases r.answer? q <;> simp [Member.ofProperty?]
  constructor
  · rintro ⟨name, q, shape, query, answer, backed⟩
    -- The answer backs the method, so the method was generated for it, and what the method is
    -- taken for and asks for can be read off the property.
    obtain ⟨hp, subject, answers⟩ := hr.answer?_eq_some_iff.mp ((hanswer q).mp answer)
    have hgenerates := (hr.generates hp backed).2
    have hname := (Method.access?_eq_some_iff.mp shape).1.symm.trans hgenerates.claim?
    simp only [Option.some.injEq, Prod.mk.injEq, true_and] at hname
    subst hname
    refine ⟨hp, backed, shape, ?_⟩
    rw [hgenerates.query? rfl, Option.some.injEq] at query
    cases hindexed : a.isIndexed with
    | true => exact .inl rfl
    | false =>
      rw [hindexed, if_neg (by simp)] at query
      subst query
      simpa [Property.answers] using answers
  · rintro ⟨hp, backed, shape, hshape⟩
    have hgenerates := (hr.generates hp backed).2
    refine ⟨p.name, _, shape, hgenerates.query? rfl _, ?_, backed⟩
    rw [hanswer, hr.answer?_eq_some_iff]
    refine ⟨hp, ?_, ?_⟩
    · split <;> rfl
    · cases hindexed : a.isIndexed with
      | true => simp [Property.answers]
      | false => simpa [hindexed, Property.answers] using hshape

end CanonicalAccess
