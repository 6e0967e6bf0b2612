import CanonicalAccess.Proofs.Replacement
import CanonicalAccess.Proofs.Outcome

/-!
# Calls of generated accessors

What normalization does, said by the history of a registry instead of its contents. An accessor was
generated by one step of the history, which returned the property that the accessor backs, and by no
other step (`generatedOnce_of_accessor`).

Calls of generated accessors are normalized, and nothing that was defined or refused besides can
stand in for the property that comes with the accessor (`normalize_generated`). Conversely only
calls of generated accessors are ever replaced (`generatedOnce_of_normalize`): a method written by
hand, one of another registry or one left over from a refused definition has no property, however
much it looks like an accessor.
-/

set_option autoImplicit false

namespace CanonicalAccess

namespace Catalogue

/-- One step of a history generated a method, as the accessor in a role of the property that the
step returned. The method was not there before, and no other step returned a property with it. -/
def GeneratedOnce (c : Catalogue) (steps : List Step) (m : Method) (role : Role) (p : Property) :
    Prop :=
  ∃ i, c.returnedAt? steps i = some p ∧ p.accessor role = .method m ∧
    m ∉ (c.run (steps.take i)).registry.methods ∧
    m ∈ (c.run (steps.take (i + 1))).registry.methods ∧
    ∀ j q role', c.returnedAt? steps j = some q → q.accessor role' = .method m →
      j = i ∧ role' = role

variable {c : Catalogue} {steps : List Step} {i : Nat} {p : Property} {m : Method} {role : Role}

/-- Methods that are there after some steps are there after more of them. -/
theorem methods_subset_of_le {j : Nat} (h : i ≤ j) :
    (c.run (steps.take i)).registry.methods ⊆ (c.run (steps.take j)).registry.methods := by
  obtain ⟨rest, hrest⟩ := List.take_prefix_take_left (l := steps) h
  rw [← hrest, run_append]
  exact (run_grown _ rest).methods_subset

/-- What a place of a history returns is returned by the step there. -/
theorem returns?_of_returnedAt? (h : c.returnedAt? steps i = some p) :
    ∃ s, (c.run (steps.take i)).returns? s = some p ∧
      c.run (steps.take (i + 1)) = (c.run (steps.take i)).step s := by
  obtain ⟨s, hs, hreturns⟩ := Option.bind_eq_some_iff.mp h
  refine ⟨s, hreturns, ?_⟩
  rw [List.take_add_one, hs, run_append]
  rfl

/-- The accessors of a property are not there before the step that returns it. -/
theorem accessor_not_mem_before (h : c.returnedAt? steps i = some p)
    (hm : p.accessor role = .method m) : m ∉ (c.run (steps.take i)).registry.methods := by
  obtain ⟨s, hreturns, -⟩ := returns?_of_returnedAt? h
  exact (step_grown _ s).2.2 p hreturns role m hm

/-- The accessors of a property are there after the step that returns it. -/
theorem accessor_mem_after (hc : c.Reachable) (h : c.returnedAt? steps i = some p)
    (hm : p.accessor role = .method m) :
    m ∈ (c.run (steps.take (i + 1))).registry.methods := by
  obtain ⟨s, hreturns, hstep⟩ := returns?_of_returnedAt? h
  have hp : p ∈ (c.run (steps.take (i + 1))).registry.properties := by
    rw [hstep, (step_grown _ s).2.1, hreturns]
    exact List.mem_append_right _ (List.mem_singleton_self p)
  exact ((hc.run _).sound.generates hp hm).1

/-- A method that is the accessor of a returned property was generated by the step that returned it
and by no other. -/
theorem generatedOnce_of_accessor (hc : c.Reachable) (hp : p ∈ c.returned steps)
    (hm : p.accessor role = .method m) : c.GeneratedOnce steps m role p := by
  obtain ⟨i, hi⟩ := (mem_returned_iff c steps p).mp hp
  refine ⟨i, hi, hm, accessor_not_mem_before hi hm, accessor_mem_after hc hi hm, ?_⟩
  intro j q role' hj hm'
  -- Of two steps the later one finds the method already there.
  rcases Nat.lt_trichotomy i j with hlt | rfl | hlt
  · exact absurd (methods_subset_of_le hlt (accessor_mem_after hc hi hm))
      (accessor_not_mem_before hj hm')
  · obtain rfl : p = q := Option.some.inj (hi.symm.trans hj)
    have hmem : p ∈ (c.run steps).registry.properties := by
      rw [properties_run]
      exact List.mem_append_right _ hp
    exact ⟨rfl, ((hc.run steps).sound.eq_of_accessor hmem hmem hm' hm).2⟩
  · exact absurd (methods_subset_of_le hlt (accessor_mem_after hc hj hm'))
      (accessor_not_mem_before hi hm)

end Catalogue

/-- A call goes through an accessor of a property as it is declared: the property is an indexer or
of an instance, and there are as many arguments as the accessor has parameters. -/
def Expr.GoesThrough (p : Property) : Expr → Prop
  | call _ _ (.method m) arguments =>
    (p.isIndexer = true ∨ p.static = false) ∧ arguments.length = m.parameters.length ∧
      ∃ role, p.accessor role = .method m
  | _ => False

/-- In a sound registry a call through an accessor of a property, as it is declared, has the shape
of an access to the property and leads there. -/
theorem Registry.Sound.leadsTo_of_goesThrough {r : Registry} (hr : r.Sound) {p : Property}
    {l : Label} {receiver : Expr} {m : Method} {arguments : List Expr} (hp : p ∈ r.properties)
    (h : (Expr.call l receiver (.method m) arguments).GoesThrough p) :
    ∃ a, a.isIndexed = p.isIndexer ∧ m.LeadsTo (Provider.ofRegistry r) arguments.length a p := by
  obtain ⟨instanced, hlength, role, hm⟩ := h
  obtain ⟨a, shape, rfl, hindexed⟩ := (hr.generates hp hm).2.exists_access
  rw [← hlength] at shape
  refine ⟨a, hindexed, hr.leadsTo_iff.mpr ⟨hp, hm, shape, ?_⟩⟩
  rw [hindexed]
  cases hindexer : p.isIndexer with
  | true => exact .inl rfl
  | false => exact .inr ⟨rfl, by simpa [hindexer] using instanced⟩

/-- In a sound registry a call through an accessor of a property, as it is declared, is in order. -/
theorem Registry.Sound.roundTrips_of_goesThrough {r : Registry} (hr : r.Sound) {p : Property}
    {c : Expr} (hp : p ∈ r.properties) (h : c.GoesThrough p) :
    c.RoundTrips (Provider.ofRegistry r) := by
  cases c with
  | call l receiver m arguments =>
    cases m with
    | absent | property p => exact absurd h id
    | method m =>
      obtain ⟨a, -, name, q, shape, query, answer, backed⟩ := hr.leadsTo_of_goesThrough hp h
      exact (Expr.roundTrips_call_iff shape).mpr ⟨q, p, query, answer, backed⟩
  | _ => exact absurd h id

/-! A history of the grid: the indexer, a static property of the same name, and a method that looks
like the getter of the indexer and is refused, as is a second property of that name. -/

namespace Grid

def history : List Step :=
  [.define (.indexer "Grid" { index := [.i32], type := .f64 }),
    .define (.property "Grid" { name := "Item", type := .f64, static := true }),
    .define (.method "Grid"
      { name := "get_Item", parameters := [.i32], returns := .f64, special := true }),
    .define (.property "Grid" { name := "Item", type := .i32 })]

def defaultGetter : Method := ⟨3, "get_Item", type, [], .f64, true, true⟩

def defaultItem : Property :=
  ⟨5, "Item", type, .f64, [], .method defaultGetter,
    .method ⟨4, "set_Item", type, [.f64], .void, true, true⟩, true, true⟩

/-- The history returns the two indexers that it defines. -/
theorem returned_history : (Catalogue.start 0).returned history = [cells, defaultItem] := by
  decide

/-- The copy of the first cell calls its getter and then its setter. -/
theorem accessorCalls_copyFirst :
    copyFirst.accessorCalls = [readFirst, .call 4 grid (.method setter) [row, readFirst]] := rfl

/-- Both calls go through an indexer that the history returned. -/
theorem goesThrough_copyFirst :
    ∀ c ∈ copyFirst.accessorCalls, ∃ p ∈ (Catalogue.start 0).returned history,
      c.GoesThrough p := by
  rw [accessorCalls_copyFirst, returned_history, List.forall_mem_cons, List.forall_mem_singleton]
  refine ⟨⟨cells, List.mem_cons_self, ?_⟩, ⟨cells, List.mem_cons_self, ?_⟩⟩
  · exact ⟨.inl rfl, rfl, .getter, rfl⟩
  · exact ⟨.inl rfl, rfl, .setter, rfl⟩

/-- The copy of the first cell is normalized over the registry of the history. -/
theorem normalize_history :
    normalize (Provider.ofRegistry ((Catalogue.start 0).run history).registry) copyFirst
        (Work.start 6) = .ok copiedFirst
      { nextLabel := 10
        log := [.replaced "get_Item" .index, .replaced "set_Item" .assign, .normalized 2]
        settled := 2
        asked := [.indexer type "Item" .f64 [.i32], .indexer type "Item" .f64 [.i32]] } := rfl

end Grid

section

variable {n : Nat} {steps : List Step} {t : Expr} {w : Work}

/-- If every accessor call of a complete tree goes through an accessor of a returned property, as it
is declared, then the tree is normalized, and what takes the place of each call carries that
property. -/
theorem normalize_generated (known : t.labelsBelow w.nextLabel = true) (complete : t.complete = true)
    (generated : ∀ c ∈ t.accessorCalls, ∃ p ∈ (Catalogue.start n).returned steps, c.GoesThrough p) :
    ∃ r w', normalize (Provider.ofRegistry ((Catalogue.start n).run steps).registry) t w = .ok r w' ∧
      t.Replaced (fun m _ a p => p ∈ (Catalogue.start n).returned steps ∧
        p.accessor a.role = .method m ∧ a.isIndexed = p.isIndexer ∧
        ∀ q ∈ (Catalogue.start n).returned steps, ∀ role, q.accessor role = .method m → q = p) r := by
  have hr := ((Catalogue.Reachable.start n).run steps).sound
  have hreturned : (Catalogue.start n).returned steps =
      ((Catalogue.start n).run steps).registry.properties :=
    (Catalogue.properties_run (Catalogue.start n) steps).symm
  rw [hreturned] at generated ⊢
  obtain ⟨r, w', hrun⟩ : ∃ r w', normalize (Provider.ofRegistry
      ((Catalogue.start n).run steps).registry) t w = .ok r w' := by
    rw [Normalization.exists_ok_iff_roundTrips complete]
    intro c hc
    obtain ⟨p, hp, hthrough⟩ := generated c hc
    exact hr.roundTrips_of_goesThrough hp hthrough
  refine ⟨r, w', hrun, (Normalization.replaced_of_normalize known hrun).imp ?_⟩
  intro l receiver m arguments a p hcall hleads
  obtain ⟨hp, hm, -, -⟩ := hr.leadsTo_iff.mp hleads
  have hindexed : a.isIndexed = p.isIndexer := by
    obtain ⟨p', hp', hthrough⟩ := generated _ hcall
    obtain ⟨a', hindexed, hleads'⟩ := hr.leadsTo_of_goesThrough hp' hthrough
    obtain ⟨rfl, rfl⟩ := hleads.unique hleads'
    exact hindexed
  refine ⟨hp, hm, hindexed, ?_⟩
  intro q hq role hqm
  exact (hr.eq_of_accessor hq hp hqm hm).1

/-- The copy of the first cell is complete, its calls go through what the history returned, and so
it is normalized with each of them replaced. -/
theorem normalize_generated_copyFirst :
    Grid.copyFirst.labelsBelow (Work.start 6).nextLabel = true ∧ Grid.copyFirst.complete = true ∧
      (∀ c ∈ Grid.copyFirst.accessorCalls, ∃ p ∈ (Catalogue.start 0).returned Grid.history,
        c.GoesThrough p) ∧
      ∃ r w', normalize (Provider.ofRegistry ((Catalogue.start 0).run Grid.history).registry)
          Grid.copyFirst (Work.start 6) = .ok r w' ∧
        Grid.copyFirst.Replaced (fun m _ a p => p ∈ (Catalogue.start 0).returned Grid.history ∧
          p.accessor a.role = .method m ∧ a.isIndexed = p.isIndexer ∧
          ∀ q ∈ (Catalogue.start 0).returned Grid.history, ∀ role,
            q.accessor role = .method m → q = p) r :=
  ⟨rfl, rfl, Grid.goesThrough_copyFirst, normalize_generated rfl rfl Grid.goesThrough_copyFirst⟩

/-- A method that leads to a property was generated for it by a step of the history, in the role for
which it is taken. -/
theorem generatedOnce_of_leadsTo {m : Method} {k : Nat} {a : Access} {p : Property}
    (h : m.LeadsTo (Provider.ofRegistry ((Catalogue.start n).run steps).registry) k a p) :
    m ∈ ((Catalogue.start n).run steps).registry.methodsOf m.declaringType ∧
      m.claim? = some (a.role, p.name) ∧ (Catalogue.start n).GeneratedOnce steps m a.role p := by
  have hreachable := Catalogue.Reachable.start n
  have hr := (hreachable.run steps).sound
  obtain ⟨hp, hm, shape, -⟩ := hr.leadsTo_iff.mp h
  have hreturned : p ∈ (Catalogue.start n).returned steps := by
    rwa [Catalogue.properties_run] at hp
  refine ⟨?_, (Method.access?_eq_some_iff.mp shape).1, ?_⟩
  · rw [Registry.methodsOf, List.mem_filter]
    exact ⟨(hr.generates hp hm).1, beq_self_eq_true _⟩
  · exact Catalogue.generatedOnce_of_accessor hreachable hreturned hm

/-- The method of every accessor call in a tree that is normalized was generated by exactly one step
of the history, as the accessor that the call takes it for, and what takes the place of the call
carries the property that the step returned. -/
theorem generatedOnce_of_normalize {r : Expr} {w' : Work} (known : t.labelsBelow w.nextLabel = true)
    (h : normalize (Provider.ofRegistry ((Catalogue.start n).run steps).registry) t w = .ok r w') :
    t.Replaced (fun m _ a p =>
        m ∈ ((Catalogue.start n).run steps).registry.methodsOf m.declaringType ∧
        m.claim? = some (a.role, p.name) ∧ (Catalogue.start n).GeneratedOnce steps m a.role p) r ∧
      ∀ l receiver m arguments, Expr.call l receiver (.method m) arguments ∈ t.accessorCalls →
        m ∈ ((Catalogue.start n).run steps).registry.methodsOf m.declaringType ∧
        ∃ role p, m.claim? = some (role, p.name) ∧
          (Catalogue.start n).GeneratedOnce steps m role p := by
  have hreplaced := Normalization.replaced_of_normalize known h
  refine ⟨hreplaced.imp fun _ hleads => generatedOnce_of_leadsTo hleads, ?_⟩
  intro l receiver m arguments hcall
  obtain ⟨a, name, p, -, hleads⟩ := hreplaced.exists_carried hcall
  obtain ⟨hdeclared, hclaim, honce⟩ := generatedOnce_of_leadsTo hleads
  exact ⟨hdeclared, a.role, p, hclaim, honce⟩

/-- The getter and the setter that the copy calls were each generated once, for the indexer that
their nodes carry. -/
theorem generatedOnce_of_normalize_copyFirst :
    (∃ w', normalize (Provider.ofRegistry ((Catalogue.start 0).run Grid.history).registry)
      Grid.copyFirst (Work.start 6) = .ok Grid.copiedFirst w') ∧
      (Grid.getter ∈ ((Catalogue.start 0).run Grid.history).registry.methodsOf Grid.type ∧
        ∃ role p, Grid.getter.claim? = some (role, p.name) ∧
          (Catalogue.start 0).GeneratedOnce Grid.history Grid.getter role p) ∧
      ∃ role p, Grid.setter.claim? = some (role, p.name) ∧
        (Catalogue.start 0).GeneratedOnce Grid.history Grid.setter role p := by
  have hcalls := Grid.accessorCalls_copyFirst
  have hnormalize := generatedOnce_of_normalize rfl Grid.normalize_history
  refine ⟨⟨_, Grid.normalize_history⟩, ?_, ?_⟩
  · refine hnormalize.2 3 Grid.grid Grid.getter [Grid.first] ?_
    rw [hcalls]
    exact List.mem_cons_self
  · refine (hnormalize.2 4 Grid.grid Grid.setter [Grid.row, Grid.readFirst] ?_).2
    rw [hcalls]
    exact List.mem_cons_of_mem _ (List.mem_singleton_self _)

/-- A method that is like the getter in all but its identity is refused. -/
example :
    let lookalike : Method := { Grid.getter with handle := 9 }
    let call : Expr := .call 3 Grid.grid (.method lookalike) [Grid.first]
    ∃ w', normalize (Provider.ofRegistry ((Catalogue.start 0).run Grid.history).registry) call
      (Work.start 4) = .error (.refused ⟨call, lookalike, .notAccessor Grid.cells .getter⟩) w' :=
  ⟨_, rfl⟩

end

end CanonicalAccess
