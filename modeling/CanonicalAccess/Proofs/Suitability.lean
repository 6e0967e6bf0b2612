import CanonicalAccess.Proofs.Generation

/-!
# Properties and the nodes that carry them

A member access is to carry a property of an instance, and an index an indexer. Normalization sees
to it for member accesses, because a question about a property is answered by nothing else. It does
not for indexes: the question about an indexer is put with the types that the method declares, and
if these leave no index types, the answer may be a property that is none, even a static one. So an
accessor of such a property ends up in an index if it is called with more arguments than it
declares, and only then.
-/

set_option autoImplicit false

namespace CanonicalAccess

/-- A property is of the sort that an access is to: an indexer, or no indexer, and never static. -/
def Property.Suits (p : Property) (a : Access) : Prop :=
  p.isIndexer = a.isIndexed ∧ p.static = false

/-- In a sound registry a call leads to a property of the sort that it accesses, unless it is an
access to an indexer with more arguments than the method declares, and the property is none. -/
theorem Registry.Sound.suits_or_surplus {r : Registry} (hr : r.Sound) {m : Method} {n : Nat}
    {a : Access} {p : Property} (h : m.LeadsTo (Provider.ofRegistry r) n a p) :
    p.Suits a ∨ (a.isIndexed = true ∧ p.isIndexer = false ∧ m.parameters.length < n) := by
  obtain ⟨hp, hm, shape, hsort⟩ := hr.leadsTo_iff.mp h
  cases hindexed : a.isIndexed with
  | false =>
    have hplain : p.isIndexer = false ∧ p.static = false := by simpa [hindexed] using hsort
    exact .inl ⟨hplain.1.trans hindexed.symm, hplain.2⟩
  | true =>
    cases hindexer : p.isIndexer with
    | true => exact .inl ⟨hindexer.trans hindexed.symm, hr.instanced p hp hindexer⟩
    | false =>
      refine .inr ⟨rfl, rfl, ?_⟩
      have hparameters := (hr.generates hp hm).2.parameters
      have hindex : p.index = [] := by simpa [Property.isIndexer] using hindexer
      have htakes := Method.takes_of_access? shape
      rw [hparameters, hindex]
      cases a with
      | readProperty | writeProperty => cases hindexed
      | readIndexer | writeIndexer => exact htakes

/-- Every node that normalization puts in place of a call carries a property of its sort, unless the
node is an index, or an assignment to one, and the call had more arguments than its method declares.
-/
theorem suits_or_surplus_of_normalize {c : Catalogue} (reachable : c.Reachable) {t r : Expr}
    {w w' : Work} (known : t.labelsBelow w.nextLabel = true)
    (h : normalize (Provider.ofRegistry c.registry) t w = .ok r w') :
    t.Replaced (fun m n a p => p.Suits a ∨
      (a.isIndexed = true ∧ p.isIndexer = false ∧ m.parameters.length < n)) r := by
  refine (Normalization.replaced_of_normalize known h).imp ?_
  intro l receiver m arguments a p _ hleads
  exact reachable.sound.suits_or_surplus hleads

/-! The getter of the static property, called with an argument that it does not declare. -/

namespace Grid

def readDefault : Expr := .call 3 .absent (.method defaultGetter) [first]

/-- The read with an argument is normalized to an index of the static property. -/
theorem normalize_readDefault :
    normalize (Provider.ofRegistry ((Catalogue.start 0).run history).registry) readDefault
        (Work.start 4) = .ok (.index 4 .absent (.property defaultItem) [first])
      { nextLabel := 5
        log := [.replaced "get_Item" .index, .normalized 1]
        settled := 1
        asked := [.indexer type "Item" .f64 []] } := rfl

end Grid

/-- The read has an argument more than its getter declares, and so the index in its place may carry
a property of another sort. -/
theorem suits_or_surplus_of_normalize_readDefault :
    ((Catalogue.start 0).run Grid.history).Reachable ∧
      Grid.readDefault.labelsBelow (Work.start 4).nextLabel = true ∧
      (∃ w', normalize (Provider.ofRegistry ((Catalogue.start 0).run Grid.history).registry)
        Grid.readDefault (Work.start 4) =
          .ok (.index 4 .absent (.property Grid.defaultItem) [Grid.first]) w') ∧
      Grid.readDefault.Replaced
        (fun m n a p => p.Suits a ∨
          (a.isIndexed = true ∧ p.isIndexer = false ∧ m.parameters.length < n))
        (.index 4 .absent (.property Grid.defaultItem) [Grid.first]) := by
  have hreachable := (Catalogue.Reachable.start 0).run Grid.history
  exact ⟨hreachable, rfl, ⟨_, Grid.normalize_readDefault⟩,
    suits_or_surplus_of_normalize hreachable rfl Grid.normalize_readDefault⟩

/-- Not every node that normalization puts in place of a call carries a property of its sort: an
index may carry a static property without index types. -/
theorem not_forall_suits :
    ¬ ∀ c : Catalogue, c.Reachable → ∀ (t r : Expr) (w w' : Work),
      t.labelsBelow w.nextLabel = true →
      normalize (Provider.ofRegistry c.registry) t w = .ok r w' →
        t.Replaced (fun _ _ a p => p.Suits a) r := by
  intro h
  have hreachable := (Catalogue.Reachable.start 0).run Grid.history
  have hreplaced := h _ hreachable Grid.readDefault _ _ _ rfl Grid.normalize_readDefault
  have shape : Grid.defaultGetter.access? [Grid.first].length = some (.readIndexer, "Item") := rfl
  obtain ⟨l, p, receiver, arguments, hindex, hsuits⟩ := hreplaced.exists_canonicalNode shape
  obtain ⟨-, -, hp, -⟩ := Expr.index.inj hindex
  cases hp
  exact absurd hsuits.1 (by decide)

end CanonicalAccess
