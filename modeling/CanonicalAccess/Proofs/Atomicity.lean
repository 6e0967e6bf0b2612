import CanonicalAccess.Proofs.Additions

/-!
# Refused definitions

A definition that is refused leaves everything as it was, with one exception: if the getter of a
property is new and its setter is there already, the getter has been added when the setter is
refused, and it stays. The property is not defined then, so no question about properties is
answered otherwise than before. But the getter is in the way of later definitions that would add
the same method, for instance of the same property without a setter (`not_forall_unchanged`).
-/

set_option autoImplicit false

namespace CanonicalAccess

namespace Definition

instance (r : Registry) : (d : Definition) → Decidable (d.Admitted r)
  | property on d => inferInstanceAs
      (Decidable (∀ p ∈ r.propertiesOf (.ofClass on), p.name = d.name → p.isIndexer = true))
  | indexer on d => inferInstanceAs (Decidable (d.index ≠ [] ∧
      ∀ p ∈ r.propertiesOf (.ofClass on), p.name = d.name → p.index ≠ d.index))
  | method _ _ => .isTrue trivial

/-- A definition leaves its getter behind: it is admitted, and the getter is new, but the setter is
there already. -/
def LeavesBehind (d : Definition) (r : Registry) (getter : MethodDefinition) : Prop :=
  d.Admitted r ∧ ∃ setter, d.methods = [getter, setter] ∧ ¬ r.Declares d.on getter ∧
    r.Declares d.on setter

variable {d d' : Definition} {r r' : Registry} {c c' : Catalogue} {e : DefinitionError}

/-- A definition adds at most two methods. -/
theorem length_methods_le (d : Definition) : d.methods.length ≤ 2 := by
  have haccessors : ∀ getter setter name index value static,
      (Define.accessorDefinitions getter setter name index value static).length ≤ 2 := by
    intro getter setter name index value static
    cases getter <;> cases setter <;> simp [Define.accessorDefinitions]
  cases d with
  | property on d | indexer on d => exact haccessors _ _ _ _ _ _
  | method on d => exact Nat.le_succ 1

/-- A definition leaves at most one getter behind. -/
theorem LeavesBehind.unique {getter getter' : MethodDefinition} (h : d.LeavesBehind r getter)
    (h' : d.LeavesBehind r getter') : getter = getter' := by
  obtain ⟨-, setter, hmethods, -⟩ := h
  obtain ⟨-, setter', hmethods', -⟩ := h'
  rw [hmethods, List.cons.injEq] at hmethods'
  exact hmethods'.1

/-- A definition that is refused leaves its getter behind, or nothing. -/
theorem catalogue_of_refused (h : d.perform c = .error e c') :
    (c' = c ∧ ∀ getter, ¬ d.LeavesBehind c.registry getter) ∨
      ∃ getter, d.LeavesBehind c.registry getter ∧ c' = c.withMethod d.on getter := by
  have hends := d.perform_ends c
  rw [h] at hends
  cases hends with
  | notAdmitted hadmitted => exact .inl ⟨rfl, fun getter hleaves => hadmitted hleaves.1⟩
  | @stopped before after m admitted split fresh declared =>
    -- There are two methods at most, so at most one comes before the one that is refused.
    have hlength := d.length_methods_le
    rw [split, List.length_append, List.length_cons] at hlength
    match before, after with
    | [], after =>
      refine .inl ⟨rfl, ?_⟩
      rintro getter ⟨-, setter, hmethods, hfresh, -⟩
      rw [split, List.nil_append, List.cons.injEq] at hmethods
      rw [← hmethods.1] at hfresh
      exact hfresh declared
    | [getter], [] =>
      exact .inr ⟨getter, ⟨admitted, m, split, fresh getter (by simp), declared⟩, rfl⟩
    | [getter], m' :: after | m₁ :: m₂ :: before, after =>
      simp only [List.length_cons] at hlength
      omega

/-- Whether a definition is admitted depends on the properties of the registry alone. -/
theorem admitted_congr (h : r'.properties = r.properties) : d.Admitted r' ↔ d.Admitted r := by
  have hon : ∀ t, r'.propertiesOf t = r.propertiesOf t := by
    intro t
    rw [Registry.propertiesOf, Registry.propertiesOf, h]
  cases d <;> simp only [Admitted, hon]

/-- With a method more, the definitions that would add it are not carried out any more. -/
theorem succeeds_withMethod {on : Ty} {m : MethodDefinition} :
    d.Succeeds (c.withMethod on m) ↔
      d.Succeeds c ∧ ∀ m' ∈ d.methods, m.signature on ≠ m'.signature d.on := by
  have hdeclares : ∀ m', (c.withMethod on m).registry.Declares d.on m' ↔
      c.registry.Declares d.on m' ∨ m.signature on = m'.signature d.on := by
    intro m'
    have hmany := @Catalogue.declares_withMethods c on d.on [m] m'
    simp only [List.mem_singleton, exists_eq_left] at hmany
    exact hmany
  have hadmitted : d.Admitted (c.withMethod on m).registry ↔ d.Admitted c.registry :=
    admitted_congr rfl
  rw [succeeds_iff, succeeds_iff, hadmitted, and_assoc]
  simp only [hdeclares, not_or, forall_and, ne_eq]

end Definition

/-- A refused definition leaves the catalogue as it was, unless it leaves its getter behind. Then
the getter is all that is added. The properties are the same in any case, and so is the answer to
every question about them, and the definitions that are carried out are the same but for those that
would add the getter. -/
theorem unchanged_of_refused {d : Definition} {c c' : Catalogue} {e : DefinitionError}
    (h : d.perform c = .error e c') :
    ((∀ getter, ¬ d.LeavesBehind c.registry getter) → c' = c) ∧
      (∀ getter, d.LeavesBehind c.registry getter → c' = c.withMethod d.on getter) ∧
      (∀ t, c'.registry.propertiesOf t = c.registry.propertiesOf t) ∧
      (∀ q, c'.registry.answer? q = c.registry.answer? q) ∧
      ∀ d' : Definition, d'.Succeeds c' ↔ d'.Succeeds c ∧
        ∀ getter, d.LeavesBehind c.registry getter →
          ∀ m ∈ d'.methods, getter.signature d.on ≠ m.signature d'.on := by
  rcases Definition.catalogue_of_refused h with ⟨rfl, hnone⟩ | ⟨getter, hleaves, rfl⟩
  · refine ⟨fun _ => rfl, ?_, fun _ => rfl, fun _ => rfl, ?_⟩
    · intro getter hleaves
      exact absurd hleaves (hnone getter)
    · intro d'
      rw [iff_self_and]
      intro _ getter hleaves
      exact absurd hleaves (hnone getter)
  · refine ⟨fun hnone => absurd hleaves (hnone getter), ?_, fun _ => rfl, fun _ => rfl, ?_⟩
    · intro getter' hleaves'
      rw [hleaves.unique hleaves']
    · intro d'
      rw [Definition.succeeds_withMethod]
      refine and_congr_right fun _ => ⟨?_, fun hapart => hapart getter hleaves⟩
      intro hapart getter' hleaves'
      rw [← hleaves.unique hleaves']
      exact hapart

/-! A setter written by hand, and a property of its name. The property is refused, and its getter is
then in the way of the same property without a setter. -/

namespace Rows

def written : Catalogue :=
  (Catalogue.start 0).run
    [.define (.method "Grid"
      { name := "set_Rows", parameters := [.i32], returns := .void, special := true })]

def getter : MethodDefinition := ⟨"get_Rows", [], .i32, true, false⟩

def rows : Definition := .property "Grid" { name := "Rows", type := .i32 }

def readOnly : Definition := .property "Grid" { name := "Rows", type := .i32, setter := false }

def columns : Definition := .property "Grid" { name := "Columns", type := .i32 }

/-- Some definitions lead to the catalogue. -/
theorem reachable_written : written.Reachable := (Catalogue.Reachable.start 0).run _

/-- The setter of `Rows` is refused, and the getter is there by then. -/
theorem perform_rows :
    rows.perform written =
      .error (.duplicateMethod "set_Rows" (.ofClass "Grid"))
        (written.withMethod (.ofClass "Grid") getter) := rfl

/-- What `Rows` leaves behind is its getter. -/
theorem leavesBehind_rows : rows.LeavesBehind written.registry getter :=
  ⟨by decide, _, rfl, by decide, by decide⟩

/-- Without a setter, `Rows` could have been defined. -/
theorem succeeds_readOnly : readOnly.Succeeds written := ⟨_, _, rfl⟩

/-- A property of another name can be defined. -/
theorem succeeds_columns : columns.Succeeds written := ⟨_, _, rfl⟩

end Rows

/-- The refused property leaves its getter behind, which keeps the same property without a setter
from being defined, but not another property. -/
theorem unchanged_of_refused_rows :
    Rows.rows.perform Rows.written =
        .error (.duplicateMethod "set_Rows" (.ofClass "Grid"))
          (Rows.written.withMethod (.ofClass "Grid") Rows.getter) ∧
      Rows.readOnly.Succeeds Rows.written ∧
      ¬ Rows.readOnly.Succeeds (Rows.written.withMethod (.ofClass "Grid") Rows.getter) ∧
      Rows.columns.Succeeds (Rows.written.withMethod (.ofClass "Grid") Rows.getter) := by
  obtain ⟨-, -, -, -, hsucceeds⟩ := unchanged_of_refused Rows.perform_rows
  refine ⟨Rows.perform_rows, Rows.succeeds_readOnly, ?_, ?_⟩
  · rw [hsucceeds]
    rintro ⟨-, hapart⟩
    exact hapart Rows.getter Rows.leavesBehind_rows Rows.getter (by decide) rfl
  · rw [hsucceeds]
    refine ⟨Rows.succeeds_columns, ?_⟩
    intro getter hleaves
    rw [hleaves.unique Rows.leavesBehind_rows]
    decide

/-- A refused definition may change the table of methods of its type, and a definition that would be
carried out before it may not be after it. -/
theorem not_forall_unchanged :
    (¬ ∀ c : Catalogue, c.Reachable → ∀ d e c', Definition.perform d c = .error e c' →
      ∀ t, c'.registry.methodsOf t = c.registry.methodsOf t ∧
        c'.registry.propertiesOf t = c.registry.propertiesOf t) ∧
    ¬ ∀ c : Catalogue, c.Reachable → ∀ d e c', Definition.perform d c = .error e c' →
      ∀ d' : Definition, d'.Succeeds c → d'.Succeeds c' := by
  constructor
  · intro h
    have htables := h _ Rows.reachable_written _ _ _ Rows.perform_rows (.ofClass "Grid")
    exact absurd htables.1 (by decide)
  · intro h
    have hsucceeds := h _ Rows.reachable_written _ _ _ Rows.perform_rows _ Rows.succeeds_readOnly
    rw [Definition.succeeds_withMethod] at hsucceeds
    exact hsucceeds.2 Rows.getter (by decide) rfl

end CanonicalAccess
