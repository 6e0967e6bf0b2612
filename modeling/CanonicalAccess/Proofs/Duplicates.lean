import CanonicalAccess.Proofs.Atomicity
import CanonicalAccess.Proofs.Lookup

/-!
# Duplicates

An accessor is a method like any other, so it may be refused although its property is not there yet.
That takes a method of the accessor's name that was defined by hand. Where no method defined by hand
has a name that is marked as an accessor's, every method that has one was generated for a property
of the registry (`Owned`). The role and the parameters of an accessor tell the name and the index of
its property, whatever the types of the values are. So an accessor that is there already betrays a
property that is there already, and the definition has been refused on account of that.

Hence a definition is refused exactly if it repeats a property, an indexer or a method of its type,
or is one of an indexer without index types. A refused definition changes nothing then.
-/

set_option autoImplicit false

namespace CanonicalAccess

namespace Role

/-- A name starts with the marker of a role. -/
def Marks (role : Role) (name : String) : Prop := role.marker.toList <+: name.toList

instance (role : Role) (name : String) : Decidable (role.Marks name) :=
  inferInstanceAs (Decidable (role.marker.toList <+: name.toList))

/-- The name of a generated accessor starts with the marker of its role. -/
theorem marks_append {role : Role} {name : String} : role.Marks (role.marker ++ name) := by
  rw [Marks, String.toList_append]
  exact List.prefix_append _ _

end Role

namespace Registry

/-- Every method whose name is marked as an accessor's was generated for a property. -/
def Owned (r : Registry) : Prop :=
  ∀ m ∈ r.methods, (∃ role : Role, role.Marks m.name) →
    ∃ p ∈ r.properties, ∃ role, p.Generates role m

/-- Where there are no methods, none lacks an owner. -/
theorem owned_empty : Owned .empty := by simp [Owned, empty]

/-- Where an accessor is there already, there is the property to which it belongs. -/
theorem Owned.exists_property {r : Registry} (hr : r.Owned) {role : Role} {on : Ty} {name : String}
    {index : List Ty} {value : Ty} {static : Bool}
    (h : r.Declares on (Define.accessorDefinition role name index value static)) :
    ∃ p ∈ r.propertiesOf on, p.name = name ∧ p.index = index := by
  obtain ⟨m, hm, hsignature⟩ := List.mem_map.mp h
  have hname : m.name = role.marker ++ name := by
    have hmarked := congrArg (fun s => s.2.1) hsignature
    cases role <;> exact hmarked
  have hmarks : role.Marks m.name := by
    rw [hname]
    exact Role.marks_append
  obtain ⟨p, hp, role', handle, rfl⟩ := hr m hm ⟨role, hmarks⟩
  obtain ⟨-, htype, hpname, hindex⟩ := Define.accessorDefinition_determined hsignature
  exact ⟨p, mem_propertiesOf.mpr ⟨hp, htype⟩, hpname, hindex⟩

end Registry

namespace Definition

/-- No method of a marked name is defined by hand. -/
def Plain : Definition → Prop
  | property _ _ | indexer _ _ => True
  | method _ d => ∀ role : Role, ¬ role.Marks d.name

instance : (d : Definition) → Decidable d.Plain
  | property _ _ | indexer _ _ => .isTrue trivial
  | method _ d => decidable_of_iff (¬ Role.getter.Marks d.name ∧ ¬ Role.setter.Marks d.name)
      ⟨fun h role => by cases role <;> simp [h], fun h => ⟨h .getter, h .setter⟩⟩

/-- A definition repeats one that is there: a property has the name of another that is no indexer,
an indexer the name and the index types of another, a method the name and the parameter types of
another. There is nothing to repeat for an indexer without index types, which is wrong by itself. -/
def Improper (r : Registry) : Definition → Prop
  | property on d => ∃ p ∈ r.propertiesOf (.ofClass on), p.isIndexer = false ∧ p.name = d.name
  | indexer on d => d.index = [] ∨
    ∃ p ∈ r.propertiesOf (.ofClass on), p.isIndexer = true ∧ p.name = d.name ∧ p.index = d.index
  | method on d => ∃ m ∈ r.methodsOf (.ofClass on), m.name = d.name ∧ m.parameters = d.parameters

instance (r : Registry) : (d : Definition) → Decidable (d.Improper r)
  | property on d => inferInstanceAs
      (Decidable (∃ p ∈ r.propertiesOf (.ofClass on), p.isIndexer = false ∧ p.name = d.name))
  | indexer on d => inferInstanceAs (Decidable (d.index = [] ∨ ∃ p ∈ r.propertiesOf (.ofClass on),
      p.isIndexer = true ∧ p.name = d.name ∧ p.index = d.index))
  | method on d => inferInstanceAs
      (Decidable (∃ m ∈ r.methodsOf (.ofClass on), m.name = d.name ∧ m.parameters = d.parameters))

variable {d : Definition} {r : Registry} {c c' : Catalogue} {e : DefinitionError}

/-- Where accessors have owners, those of a definition that is admitted are new. -/
theorem not_declares_of_admitted (hr : r.Owned) (generative : d.Generative)
    (admitted : d.Admitted r) : ∀ m ∈ d.methods, ¬ r.Declares d.on m := by
  intro m hm declares
  cases d with
  | property on d =>
    obtain ⟨role, rfl⟩ := Define.exists_role_of_mem hm
    obtain ⟨p, hp, hname, hindex⟩ := hr.exists_property declares
    have hindexer := admitted p hp hname
    simp [Property.isIndexer, hindex] at hindexer
  | indexer on d =>
    obtain ⟨role, rfl⟩ := Define.exists_role_of_mem hm
    obtain ⟨p, hp, hname, hindex⟩ := hr.exists_property declares
    exact admitted.2 p hp hname hindex
  | method on d => exact generative

/-- A definition that generates its methods passes its own check unless it is improper. -/
theorem admitted_iff_not_improper (generative : d.Generative) :
    d.Admitted r ↔ ¬ d.Improper r := by
  cases d with
  | property on d =>
    simp only [Admitted, Improper, not_exists, not_and]
    refine forall₂_congr fun p _ => ?_
    cases p.isIndexer <;> simp
  | indexer on d =>
    simp only [Admitted, Improper, not_or, not_exists, not_and]
    refine and_congr_right fun hindex => forall₂_congr fun p _ => ?_
    constructor
    · exact fun h _ => h
    · intro h hname heq
      refine h ?_ hname heq
      simpa [Property.isIndexer, heq] using hindex
  | method on d => exact generative.elim

/-- A method is declared already exactly if its definition is improper. -/
theorem declares_method_iff {on : String} {m : MethodDefinition} :
    r.Declares (.ofClass on) m ↔ (method on m).Improper r := by
  rw [← Registry.any_hasSignature_iff]
  simp [Improper, Method.hasSignature]

/-- Where accessors have owners, no method that a definition would add is there already unless the
definition is improper. -/
theorem improper_of_declares (hr : r.Owned) {m : MethodDefinition} (hm : m ∈ d.methods)
    (declares : r.Declares d.on m) : d.Improper r := by
  cases d with
  | property on d | indexer on d =>
    by_contra hproper
    have admitted := (admitted_iff_not_improper (by trivial)).mpr hproper
    exact not_declares_of_admitted hr (by trivial) admitted m hm declares
  | method on d =>
    obtain rfl := List.mem_singleton.mp hm
    exact declares_method_iff.mp declares

/-- Where accessors have owners, a definition is carried out unless it is improper. -/
theorem succeeds_iff_not_improper (hr : c.registry.Owned) :
    d.Succeeds c ↔ ¬ d.Improper c.registry := by
  have hfresh : ¬ d.Improper c.registry → ∀ m ∈ d.methods, ¬ c.registry.Declares d.on m :=
    fun hproper m hm declares => hproper (improper_of_declares hr hm declares)
  rw [succeeds_iff]
  cases d with
  | property on d | indexer on d =>
    refine (and_congr_left' (admitted_iff_not_improper (by trivial))).trans ?_
    exact ⟨And.left, fun hproper => ⟨hproper, hfresh hproper⟩⟩
  | method on d =>
    constructor
    · rintro ⟨-, fresh⟩
      exact mt declares_method_iff.mpr (fresh d (List.mem_singleton_self d))
    · exact fun hproper => ⟨trivial, hfresh hproper⟩

/-- Where accessors have owners, a refused definition changes nothing: its getter would only stay
behind if its setter had an owner, and then the definition would not be admitted. -/
theorem eq_of_refused (hr : c.registry.Owned) (h : d.perform c = .error e c') : c' = c := by
  rcases catalogue_of_refused h with ⟨heq, -⟩ | ⟨getter, hleaves, -⟩
  · exact heq
  · obtain ⟨admitted, setter, hmethods, -, declared⟩ := hleaves
    have hsetter : setter ∈ d.methods := by simp [hmethods]
    cases d with
    | property on d | indexer on d =>
      exact absurd declared (not_declares_of_admitted hr (by trivial) admitted setter hsetter)
    | method on d => cases hmethods

end Definition

namespace Catalogue

/-- A definition by which no method of a marked name is defined by hand leaves every accessor with
its owner. -/
theorem owned_after {c : Catalogue} (hc : c.registry.Owned) {d : Definition} (plain : d.Plain) :
    (c.after d).registry.Owned := by
  have hends := d.perform_ends c
  have hgrown := (step_grown c (.define d)).1
  simp only [step, after] at hgrown ⊢
  cases hrun : d.perform c with
  | error e c' =>
    rw [Definition.eq_of_refused hc hrun]
    exact hc
  | ok member c' =>
    rw [hrun] at hends hgrown
    cases hends with
    | done _ _ added =>
      obtain ⟨-, ps, -, hproperties⟩ := hgrown.exists_append
      intro m hm hmarked
      rw [added.methods] at hm
      rcases mem_withMethods hm with hold | ⟨d', hd', handle, rfl⟩
      · obtain ⟨p, hp, hgenerates⟩ := hc m hold hmarked
        exact ⟨p, by simp [hproperties, hp], hgenerates⟩
      · cases d with
        | property on d | indexer on d => exact added.generated trivial d' hd' handle
        | method on d =>
          obtain rfl := List.mem_singleton.mp hd'
          obtain ⟨role, hmarks⟩ := hmarked
          exact absurd hmarks (plain role)

end Catalogue

/-- A step by which no method of a marked name is defined by hand. -/
def Step.Plain : Step → Prop
  | define d => d.Plain
  | skip _ => True

instance : (s : Step) → Decidable s.Plain
  | .define d => inferInstanceAs (Decidable d.Plain)
  | .skip _ => .isTrue trivial

namespace Catalogue

/-- Plain definitions leave every accessor with an owner. -/
theorem owned_run {c : Catalogue} (hc : c.registry.Owned) {steps : List Step}
    (plain : ∀ s ∈ steps, s.Plain) : (c.run steps).registry.Owned := by
  induction steps generalizing c with
  | nil => exact hc
  | cons s steps ih =>
    rw [List.forall_mem_cons] at plain
    refine ih ?_ plain.2
    cases s with
    | define d => exact owned_after hc plain.1
    | skip handles => exact hc

end Catalogue

/-- No two methods that a definition adds have the same signature. -/
theorem Definition.nodup_methods (d : Definition) :
    (d.methods.map fun m => m.signature d.on).Nodup := by
  have haccessors : ∀ on getter setter name index value static,
      ((Define.accessorDefinitions getter setter name index value static).map
        fun m => m.signature on).Nodup := by
    intro on getter setter name index value static
    cases getter <;> cases setter <;>
      simp [Define.accessorDefinitions, Define.accessorDefinition_apart]
  cases d with
  | property on d | indexer on d => exact haccessors _ _ _ _ _ _ _
  | method on d => exact List.nodup_singleton _

/-- Where no method of a marked name is defined by hand, a definition is refused exactly if it is
improper, and then it changes nothing. Accessors do not get in the way of each other: the methods
that a definition adds differ from each other, and none of them is there already unless the
definition is improper. -/
theorem refused_iff_improper {n : Nat} {steps : List Step} (plain : ∀ s ∈ steps, s.Plain)
    (d : Definition) :
    let c := (Catalogue.start n).run steps
    ((∃ e c', d.perform c = .error e c') ↔ d.Improper c.registry) ∧
      (∀ e c', d.perform c = .error e c' → c' = c) ∧
      (d.methods.map fun m => m.signature d.on).Nodup ∧
      ∀ m ∈ d.methods, c.registry.Declares d.on m → d.Improper c.registry := by
  intro c
  have hc : c.registry.Owned := Catalogue.owned_run Registry.owned_empty plain
  refine ⟨?_, fun e c' => Definition.eq_of_refused hc, d.nodup_methods, ?_⟩
  · rw [← not_iff_not, ← Definition.succeeds_iff_not_improper hc]
    unfold Definition.Succeeds
    cases d.perform c <;> simp
  · exact fun m hm => Definition.improper_of_declares hc hm

/-! A grid with a property and indexers of one name. The setter of the first indexer takes what the
getter of the second one takes, and the one of the second what the getter of the third takes. -/

namespace Items

def history : List Step :=
  [.define (.property "Grid" { name := "Item", type := .i32 }),
    .define (.indexer "Grid" { index := [.i32], type := .f64 }),
    .define (.indexer "Grid" { index := [.i32, .f64], type := .i32 }),
    .define (.method "Grid" { name := "Item", parameters := [.i32], returns := .void })]

def defined : Catalogue := (Catalogue.start 0).run history

/-- An indexer of other index types than those that are there. -/
def third : Definition := .indexer "Grid" { index := [.i32, .f64, .i32], type := .bool }

/-- An indexer that is there already, but for its value type and its accessors. -/
def second : Definition := .indexer "Grid" { index := [.i32, .f64], type := .bool, getter := false }

/-- A property that is there already, but for belonging to the type itself. -/
def static : Definition := .property "Grid" { name := "Item", type := .bool, static := true }

end Items

/-- A third indexer of the same name is accepted; one with the index types of the first is refused,
and so is a property of a name that is taken. -/
theorem refused_iff_improper_items :
    (∀ s ∈ Items.history, s.Plain) ∧
      (¬ ∃ e c', Items.third.perform Items.defined = .error e c') ∧
      (∃ e, Items.second.perform Items.defined = .error e Items.defined) ∧
      ∃ e, Items.static.perform Items.defined = .error e Items.defined := by
  have plain : ∀ s ∈ Items.history, s.Plain := by decide
  have hrefused : ∀ d : Definition, d.Improper Items.defined.registry →
      ∃ e, d.perform Items.defined = .error e Items.defined := by
    intro d improper
    obtain ⟨hiff, hunchanged, -⟩ := refused_iff_improper (n := 0) plain d
    obtain ⟨e, c', hrun⟩ := hiff.mpr improper
    obtain rfl := hunchanged e c' hrun
    exact ⟨e, hrun⟩
  refine ⟨plain, ?_, hrefused _ (by decide), hrefused _ (by decide)⟩
  exact mt (refused_iff_improper plain Items.third).1.mp (by decide)

end CanonicalAccess
