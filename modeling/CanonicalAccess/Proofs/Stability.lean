import CanonicalAccess.Proofs.FirstFault
import CanonicalAccess.Proofs.Generation
import CanonicalAccess.Proofs.NormalForm
import CanonicalAccess.Proofs.Unlabelled

/-!
# Stability while a registry grows

What is defined later has no say in the normalization of a tree whose methods were there before. A
property that is found keeps its place, because later ones have other signatures, and a call that
was refused goes on being refused, because later properties come with accessors of their own. So a
call leads to the same property before and after (`leadsTo_run_iff`), and this is all that the
outcome depends on: the same trees are normalized, to the same trees but for labels, and of the
others the same call is refused, if perhaps for another reason (`normalize_run_agrees`).
-/

set_option autoImplicit false

namespace CanonicalAccess

namespace Expr

/-! ### What took the place of the calls, up to labels -/

/-- Labels are taken off a list one tree at a time. -/
theorem unlabelledAll_eq_map (es : List Expr) : unlabelledAll es = es.map unlabelled := by
  induction es with
  | nil => rfl
  | cons e es ih => rw [unlabelledAll, ih, List.map_cons]

/-- A node rebuilt from children that agree up to labels is the same node up to labels. -/
theorem unlabelled_rebuild {e : Expr} {cs cs' : List Expr} {l l' : Label}
    (hlen : cs.length = e.children.length) (h : cs.map unlabelled = cs'.map unlabelled) :
    (e.rebuild l cs).unlabelled = (e.rebuild l' cs').unlabelled := by
  have hlen' : cs'.length = e.children.length := by
    have hlength := congrArg List.length h
    rw [List.length_map, List.length_map] at hlength
    omega
  induction e, cs, hlen using children_cases with
  | absent | constant | parameter | bare => rfl
  | index l₀ r p as r₁ as₁ | call l₀ r m as r₁ as₁ =>
    obtain ⟨r₂, as₂, rfl⟩ := List.exists_cons_of_length_eq_add_one hlen'
    simp only [List.map_cons, List.cons.injEq] at h
    simp only [rebuild, unlabelled, unlabelledAll_eq_map, h.1, h.2]
  | member l₀ r p r₁ | unary l₀ o x t r₁ | lambda l₀ ps b r₁ =>
    obtain ⟨r₂, rfl⟩ := List.length_eq_one_iff.mp hlen'
    simp only [List.map_cons, List.cons.injEq] at h
    simp only [rebuild, unlabelled, h.1]
  | assign l₀ t v x₁ y₁ | binary l₀ o x y t x₁ y₁ =>
    obtain ⟨x₂, y₂, rfl⟩ := List.length_eq_two.mp hlen'
    simp only [List.map_cons, List.cons.injEq] at h
    simp only [rebuild, unlabelled, h.1, h.2.1]
  | conditional l₀ c x y c₁ x₁ y₁ =>
    obtain ⟨c₂, x₂, y₂, rfl⟩ := List.length_eq_three.mp hlen'
    simp only [List.map_cons, List.cons.injEq] at h
    simp only [rebuild, unlabelled, h.1, h.2.1, h.2.2.1]

/-- What is related to two lists agrees up to labels, if item by item whatever is does. -/
theorem map_unlabelled_eq {relation : Expr → Expr → Prop} {es es' cs cs' : List Expr}
    (h : List.Forall₂ (fun e e' => ∀ c c', relation e c → relation e' c' →
      c.unlabelled = c'.unlabelled) es es')
    (hcs : List.Forall₂ relation es cs) (hcs' : List.Forall₂ relation es' cs') :
    cs.map unlabelled = cs'.map unlabelled := by
  induction h generalizing cs cs' with
  | nil =>
    cases hcs
    cases hcs'
    rfl
  | cons head _ ih =>
    obtain ⟨c, rest, hc, hrest, rfl⟩ := List.forall₂_cons_left_iff.mp hcs
    obtain ⟨c', rest', hc', hrest', rfl⟩ := List.forall₂_cons_left_iff.mp hcs'
    rw [List.map_cons, List.map_cons, head c c' hc hc', ih hrest hrest']

/-- Lists that are equal up to labels have last expressions that are. -/
theorem unlabelled_getLastD {as as' : List Expr} (h : as.map unlabelled = as'.map unlabelled) :
    (as.getLastD .absent).unlabelled = (as'.getLastD .absent).unlabelled := by
  have hlast : ∀ es : List Expr, (es.getLastD .absent).unlabelled =
      (es.map unlabelled).getLastD .absent := by
    intro es
    rw [List.getLastD_eq_getLast?, List.getLastD_eq_getLast?, List.getLast?_map]
    cases es.getLast? <;> rfl
  rw [hlast, hlast, h]

/-- Canonical nodes of parts that are equal up to labels are so themselves. -/
theorem unlabelled_canonicalNode {l l' : Label} {a : Access} {p : Property} {r r' : Expr}
    {as as' : List Expr} (hr : r.unlabelled = r'.unlabelled)
    (has : as.map unlabelled = as'.map unlabelled) :
    (Normalization.canonicalNode l a p r as).unlabelled =
      (Normalization.canonicalNode l' a p r' as').unlabelled := by
  have hinit : as.dropLast.map unlabelled = as'.dropLast.map unlabelled := by
    rw [List.map_dropLast, List.map_dropLast, has]
  cases a <;>
    simp only [Normalization.canonicalNode, unlabelled, unlabelledAll_eq_map, hr, has, hinit,
      unlabelled_getLastD has]

section Agree

variable {carries : Method → Nat → Access → Property → Prop}

/-- What is no accessor call is rebuilt. -/
theorem Replaced.of_unshaped {e r : Expr} (h : Replaced carries e r)
    (unshaped : e.isAccessorShaped = false) :
    ∃ l cs, r = e.rebuild l cs ∧ List.Forall₂ (Replaced carries) e.children cs := by
  cases h with
  | @kept _ cs l _ children => exact ⟨l, cs, rfl, children⟩
  | settled l shape carried children =>
    rw [isAccessorShaped_call, shape] at unshaped
    cases unshaped

/-- Two trees come to the same: whatever takes the place of the calls of the one and of the other
agrees up to labels. -/
def Agree (carries : Method → Nat → Access → Property → Prop) (e e' : Expr) : Prop :=
  ∀ r r', Replaced carries e r → Replaced carries e' r' → r.unlabelled = r'.unlabelled

/-- Where a call can carry one property at most, a node comes to the same as the node rebuilt from
children that come to the same as its own. -/
theorem Agree.rebuild (unique : ∀ m n a p p', carries m n a p → carries m n a p' → p = p')
    {e : Expr} {cs : List Expr} (l : Label) (h : List.Forall₂ (Agree carries) e.children cs) :
    Agree carries e (e.rebuild l cs) := by
  have hlen := h.length_eq.symm
  intro r r' hr hr'
  cases hr with
  | kept l₁ unshaped children =>
    obtain ⟨l₂, cs', rfl, children'⟩ :=
      hr'.of_unshaped ((isAccessorShaped_rebuild hlen).trans unshaped)
    rw [children_rebuild hlen] at children'
    rw [rebuild_rebuild hlen (children'.length_eq.symm.trans hlen)]
    exact unlabelled_rebuild children.length_eq.symm (map_unlabelled_eq h children children')
  | settled l₁ shape carried children =>
    -- The call rebuilt has as many arguments, so it has the same shape.
    rw [children_call] at h
    obtain ⟨receiver₂, arguments₂, hreceiver, harguments, rfl⟩ := List.forall₂_cons_left_iff.mp h
    cases hr' with
    | kept l₂ unshaped' children' =>
      rw [isAccessorShaped_rebuild hlen, isAccessorShaped_call, shape] at unshaped'
      cases unshaped'
    | settled l₂ shape' carried' children' =>
      rw [← harguments.length_eq, shape, Option.some.injEq, Prod.mk.injEq] at shape'
      obtain ⟨rfl, rfl⟩ := shape'
      rw [← harguments.length_eq] at carried'
      obtain rfl := unique _ _ _ _ _ carried carried'
      have hparts := map_unlabelled_eq h children children'
      rw [List.map_cons, List.map_cons, List.cons.injEq] at hparts
      exact unlabelled_canonicalNode hparts.1 hparts.2

/-- Every tree agrees with itself where no call has a choice. -/
theorem Agree.refl (unique : ∀ m n a p p', carries m n a p → carries m n a p' → p = p')
    (e : Expr) : Agree carries e e := by
  induction e using children_induction with
  | step e ih =>
    obtain ⟨l, hself⟩ := exists_rebuild_self e
    have hagree := Agree.rebuild unique l (List.forall₂_same.mpr ih)
    rwa [hself] at hagree

/-- Where a call can carry one property at most, what takes the place of the calls of a tree is
determined up to labels. -/
theorem Replaced.unlabelled_unique
    (unique : ∀ m n a p p', carries m n a p → carries m n a p' → p = p') {e r r' : Expr}
    (h : Replaced carries e r) (h' : Replaced carries e r') : r.unlabelled = r'.unlabelled :=
  Agree.refl unique e r r' h h'

end Agree

end Expr

/-! ### Where calls lead -/

namespace Catalogue

/-- Steps create a method if it is there after them and was not there before. -/
def Creates (c : Catalogue) (steps : List Step) (m : Method) : Prop :=
  m ∈ (c.run steps).registry.methods ∧ m ∉ c.registry.methods

instance (c : Catalogue) (steps : List Step) (m : Method) : Decidable (c.Creates steps m) :=
  inferInstanceAs (Decidable (m ∈ (c.run steps).registry.methods ∧ m ∉ c.registry.methods))

variable {c : Catalogue} {later : List Step} {m : Method}

/-- The accessors of a property that is returned were created by the steps. -/
theorem creates_of_returned (reachable : c.Reachable) {p : Property} {role : Role}
    (hp : p ∈ c.returned later) (hm : p.accessor role = .method m) : c.Creates later m := by
  obtain ⟨i, hi⟩ := (mem_returned_iff c later p).mp hp
  have hlast : p ∈ (c.run later).registry.properties := by
    rw [properties_run]
    exact List.mem_append_right _ hp
  refine ⟨((reachable.run later).sound.generates hlast hm).1, ?_⟩
  intro hbefore
  exact accessor_not_mem_before hi hm ((run_grown c (later.take i)).methods_subset hbefore)

/-- A call of a method that was not created by later steps leads where it did before them. -/
theorem leadsTo_run_iff (reachable : c.Reachable) (existed : ¬ c.Creates later m) {n : Nat}
    {a : Access} {p : Property} :
    m.LeadsTo (Provider.ofRegistry (c.run later).registry) n a p ↔
      m.LeadsTo (Provider.ofRegistry c.registry) n a p := by
  rw [(reachable.run later).sound.leadsTo_iff, reachable.sound.leadsTo_iff, properties_run,
    List.mem_append]
  constructor
  · rintro ⟨hp, hm, hshape⟩
    rcases hp with hp | hp
    · exact ⟨hp, hm, hshape⟩
    · exact absurd (creates_of_returned reachable hp hm) existed
  · rintro ⟨hp, hm, hshape⟩
    exact ⟨.inl hp, hm, hshape⟩

end Catalogue

/-- A method leads back from a shape in which it is called if it leads somewhere. -/
theorem Method.roundTrips_iff_leadsTo {provider : Provider} {m : Method} {n : Nat} {a : Access}
    {name : String} (shape : m.access? n = some (a, name)) :
    m.RoundTrips provider a name ↔ ∃ p, m.LeadsTo provider n a p := by
  constructor
  · rintro ⟨q, p, query, answer, backed⟩
    exact ⟨p, name, q, shape, query, answer, backed⟩
  · rintro ⟨p, name', q, shape', query, answer, backed⟩
    rw [shape, Option.some.injEq, Prod.mk.injEq] at shape'
    obtain ⟨-, rfl⟩ := shape'
    exact ⟨q, p, query, answer, backed⟩

namespace Expr

/-- The method that an expression calls, if it is a call. -/
def calledMethod? : Expr → Option Method
  | call _ _ (.method m) _ => some m
  | _ => none

/-- The methods that are called in a tree. -/
def calledMethods (e : Expr) : List Method := e.nodes.filterMap calledMethod?

/-- The method of a call in a tree is one of those that the tree calls. -/
theorem mem_calledMethods {t : Expr} {l : Label} {receiver : Expr} {m : Method}
    {arguments : List Expr} (h : call l receiver (.method m) arguments ∈ t.nodes) :
    m ∈ t.calledMethods := List.mem_filterMap.mpr ⟨_, h, rfl⟩

/-- An expression whose method was not created by later steps is in order after them exactly if it
was before. -/
theorem roundTrips_run_iff {c : Catalogue} (reachable : c.Reachable) {later : List Step}
    {t e : Expr} (existed : ∀ m ∈ t.calledMethods, ¬ c.Creates later m) (he : e ∈ t.nodes) :
    e.RoundTrips (Provider.ofRegistry (c.run later).registry) ↔
      e.RoundTrips (Provider.ofRegistry c.registry) := by
  cases e with
  | call l receiver m arguments =>
    cases m with
    | absent | property p => exact Iff.rfl
    | method m =>
      refine forall₂_congr fun a name => forall_congr' fun shape => ?_
      rw [Method.roundTrips_iff_leadsTo shape, Method.roundTrips_iff_leadsTo shape]
      simp only [Catalogue.leadsTo_run_iff reachable (existed m (mem_calledMethods he))]
  | _ => exact Iff.rfl

end Expr

/-! ### The same verdict -/

/-- Two functions that have an answer for the same members of a list take their first answers from
the same member. -/
theorem findSome?_agree {α β : Type} {f g : α → Option β} {as : List α}
    (agree : ∀ a ∈ as, f a = none ↔ g a = none) :
    (as.findSome? f = none ∧ as.findSome? g = none) ∨
      ∃ a ∈ as, ∃ b b', f a = some b ∧ g a = some b' ∧
        as.findSome? f = some b ∧ as.findSome? g = some b' := by
  induction as with
  | nil => exact .inl ⟨rfl, rfl⟩
  | cons a as ih =>
    rw [List.forall_mem_cons] at agree
    cases hf : f a with
    | none =>
      have hg : g a = none := agree.1.mp hf
      simp only [List.findSome?_cons, hf, hg]
      rcases ih agree.2 with hnone | ⟨a', ha', hfirst⟩
      · exact .inl hnone
      · exact .inr ⟨a', List.mem_cons_of_mem a ha', hfirst⟩
    | some b =>
      obtain ⟨b', hg⟩ : ∃ b', g a = some b' := by
        rw [← Option.ne_none_iff_exists', ne_eq, ← agree.1, hf]
        nofun
      refine .inr ⟨a, List.mem_cons_self, b, b', hf, hg, ?_, ?_⟩
      · simp only [List.findSome?_cons, hf]
      · simp only [List.findSome?_cons, hg]

/-- Two computations that come to the same calls, and find the same of them in order, both succeed
or are both refused at the same call. -/
theorem DecidedBy.agree {provider provider' : Provider} (total : provider.Total)
    (total' : provider'.Total) {α : Type} {calls : List Expr}
    (declares : ∀ e ∈ calls, e.DeclaresValue)
    (agree : ∀ e ∈ calls, e.RoundTrips provider ↔ e.RoundTrips provider')
    {result result' : EStateM.Result Fault Work α} (h : DecidedBy provider calls result)
    (h' : DecidedBy provider' calls result') :
    (∃ a a' v v', result = .ok a v ∧ result' = .ok a' v') ∨
      ∃ refusal refusal' v v', result = .error (.refused refusal) v ∧
        result' = .error (.refused refusal') v' ∧ refusal.call = refusal'.call := by
  have hfaults : ∀ e ∈ calls, e.fault? provider = none ↔ e.fault? provider' = none := by
    intro e he
    rw [Expr.fault?_eq_none_iff, Expr.fault?_eq_none_iff]
    exact agree e he
  unfold DecidedBy at h h'
  rcases findSome?_agree hfaults with ⟨hnone, hnone'⟩ |
    ⟨e, he, fault, fault', hfault, hfault', hfirst, hfirst'⟩
  · rw [hnone] at h
    rw [hnone'] at h'
    obtain ⟨a, v, hrun⟩ := h
    obtain ⟨a', v', hrun'⟩ := h'
    exact .inl ⟨a, a', v, v', hrun, hrun'⟩
  · rw [hfirst] at h
    rw [hfirst'] at h'
    obtain ⟨v, hrun⟩ := h
    obtain ⟨v', hrun'⟩ := h'
    obtain ⟨refusal, rfl, hcall, -⟩ := Refusal.due_of_fault? total (declares e he) hfault
    obtain ⟨refusal', rfl, hcall', -⟩ := Refusal.due_of_fault? total' (declares e he) hfault'
    exact .inr ⟨refusal, refusal', v, v', hrun, hrun', hcall.trans hcall'.symm⟩

/-- If the calls of a tree lead to the same properties in two registries, the tree is normalized to
equal trees. -/
theorem Normalization.equal_of_leadsTo {provider provider' : Provider} {t r r' : Expr}
    {w v w' v' : Work} (known : t.labelsBelow w.nextLabel = true)
    (known' : t.labelsBelow w'.nextLabel = true)
    (agree : ∀ {l : Label} {receiver : Expr} {m : Method} {arguments : List Expr} {a : Access}
      {p : Property}, Expr.call l receiver (.method m) arguments ∈ t.accessorCalls →
        m.LeadsTo provider' arguments.length a p → m.LeadsTo provider arguments.length a p)
    (h : normalize provider t w = .ok r v) (h' : normalize provider' t w' = .ok r' v') :
    r.equal r' = true := by
  have hreplaced := replaced_of_normalize known h
  have hreplaced' := (replaced_of_normalize known' h').imp agree
  refine Expr.equal_of_unlabelled_eq (hreplaced.unlabelled_unique ?_ hreplaced')
  intro m n a p p' hp hp'
  exact (hp.unique hp').2

/-- Normalizing a complete tree, none of whose methods was created by later steps, ends before and
after them in equal trees, or it is refused before and after them at the same call. -/
theorem normalize_run_agrees {c : Catalogue} (reachable : c.Reachable) (later : List Step)
    {t : Expr} (complete : t.complete = true) (declares : ∀ e ∈ t.nodes, e.DeclaresValue)
    (existed : ∀ m ∈ t.calledMethods, ¬ c.Creates later m) {w w' : Work}
    (known : t.labelsBelow w.nextLabel = true) (known' : t.labelsBelow w'.nextLabel = true) :
    (∃ r r' v v', normalize (Provider.ofRegistry c.registry) t w = .ok r v ∧
      normalize (Provider.ofRegistry (c.run later).registry) t w' = .ok r' v' ∧
      r.equal r' = true) ∨
    ∃ refusal refusal' v v',
      normalize (Provider.ofRegistry c.registry) t w = .error (.refused refusal) v ∧
      normalize (Provider.ofRegistry (c.run later).registry) t w' = .error (.refused refusal') v' ∧
      refusal.call = refusal'.call := by
  have hnodes : t.accessorCalls ⊆ t.nodes := List.filter_subset_self _
  have hagree : ∀ e ∈ t.accessorCalls, e.RoundTrips (Provider.ofRegistry c.registry) ↔
      e.RoundTrips (Provider.ofRegistry (c.run later).registry) :=
    fun e he => (Expr.roundTrips_run_iff reachable existed (hnodes he)).symm
  have hdecided := @Normalization.decidedBy_normalize (Provider.ofRegistry c.registry) t complete w
  have hdecided' := @Normalization.decidedBy_normalize
    (Provider.ofRegistry (c.run later).registry) t complete w'
  rcases hdecided.agree (Provider.total_ofRegistry _) (Provider.total_ofRegistry _)
    (fun e he => declares e (hnodes he)) hagree hdecided' with
    ⟨r, r', v, v', hrun, hrun'⟩ | hrefused
  · refine .inl ⟨r, r', v, v', hrun, hrun', ?_⟩
    refine Normalization.equal_of_leadsTo known known' ?_ hrun hrun'
    intro l receiver m arguments a p hcall hleads
    have hcalled := Expr.mem_calledMethods (hnodes hcall)
    exact (Catalogue.leadsTo_run_iff reachable (existed m hcalled)).mp hleads
  · exact .inr hrefused

/-! The grid with a getter written by hand, and steps after it: a property of the getter's name that
is refused on account of it, the same property without a getter of its own, and an overload of the
indexer. -/

namespace Grid

def bySize : List Step :=
  history ++ [.define (.method "Grid"
    { name := "get_Size", parameters := [], returns := .i32, special := true })]

def size : Method := ⟨6, "get_Size", type, [], .i32, true, false⟩

def readSize : Expr := .call 3 grid (.method size) []

def overloads : List Step :=
  [.define (.property "Grid" { name := "Size", type := .i32 }),
    .define (.property "Grid" { name := "Size", type := .i32, getter := false }),
    .define (.indexer "Grid" { index := [.i32, .i32], type := .f64 })]

/-- The catalogue before the overloads, and what becomes of both calls there. -/
def sized : Catalogue := (Catalogue.start 0).run bySize

/-- Over the grid with a size the copy is normalized as before. -/
theorem normalize_sized_copyFirst :
    normalize (Provider.ofRegistry sized.registry) copyFirst (Work.start 6) = .ok copiedFirst
      { nextLabel := 10
        log := [.replaced "get_Item" .index, .replaced "set_Item" .assign, .normalized 2]
        settled := 2
        asked := [.indexer type "Item" .f64 [.i32], .indexer type "Item" .f64 [.i32]] } := rfl

/-- The hand-written method is not the getter of any property and is refused. -/
theorem normalize_sized_readSize :
    normalize (Provider.ofRegistry sized.registry) readSize (Work.start 4) =
      .error (.refused ⟨readSize, size, .unanswered (.property type "Size")⟩)
        { Work.start 4 with asked := [.property type "Size"] } := rfl

/-- The overloads create none of the methods called. -/
theorem not_creates_overloads :
    ∀ m ∈ copyFirst.calledMethods ++ readSize.calledMethods, ¬ sized.Creates overloads m := by
  decide

end Grid

/-- Later steps neither take the grid's accessors away from the indexer nor make an accessor of the
getter written by hand. -/
theorem normalize_run_agrees_overloads :
    Grid.sized.Reachable ∧ Grid.copyFirst.complete = true ∧ Grid.readSize.complete = true ∧
      (∀ e ∈ Grid.copyFirst.nodes ++ Grid.readSize.nodes, e.DeclaresValue) ∧
      (∀ m ∈ Grid.copyFirst.calledMethods ++ Grid.readSize.calledMethods,
        ¬ Grid.sized.Creates Grid.overloads m) ∧
      (∃ r w, normalize (Provider.ofRegistry (Grid.sized.run Grid.overloads).registry)
        Grid.copyFirst (Work.start 40) = .ok r w ∧ Grid.copiedFirst.equal r = true) ∧
      ∃ refusal w, normalize (Provider.ofRegistry (Grid.sized.run Grid.overloads).registry)
        Grid.readSize (Work.start 40) = .error (.refused refusal) w ∧
          refusal.call = Grid.readSize := by
  have reachable : Grid.sized.Reachable := (Catalogue.Reachable.start 0).run Grid.bySize
  have declares : ∀ e ∈ Grid.copyFirst.nodes ++ Grid.readSize.nodes, e.DeclaresValue := by
    have hsize : Grid.size.access? 0 = some (.readProperty, "Size") := rfl
    simp [Grid.copyFirst, Grid.readFirst, Grid.readSize, Grid.grid, Grid.row, Grid.first,
      Expr.nodes, Expr.nodesAll, Expr.DeclaresValue, Grid.setter, Grid.getter, hsize]
  have existed := Grid.not_creates_overloads
  refine ⟨reachable, rfl, rfl, declares, existed, ?_, ?_⟩
  · rw [List.forall_mem_append] at declares existed
    rcases @normalize_run_agrees _ reachable Grid.overloads _ rfl declares.1 existed.1
      (Work.start 6) (Work.start 40) rfl rfl with
      ⟨r, r', v, v', hrun, hrun', hequal⟩ | ⟨refusal, refusal', v, v', hrun, -⟩
    · rw [Grid.normalize_sized_copyFirst] at hrun
      cases hrun
      exact ⟨r', v', hrun', hequal⟩
    · rw [Grid.normalize_sized_copyFirst] at hrun
      cases hrun
  · rw [List.forall_mem_append] at declares existed
    rcases @normalize_run_agrees _ reachable Grid.overloads _ rfl declares.2 existed.2
      (Work.start 4) (Work.start 40) rfl rfl with
      ⟨r, r', v, v', hrun, -⟩ | ⟨refusal, refusal', v, v', hrun, hrun', hcall⟩
    · rw [Grid.normalize_sized_readSize] at hrun
      cases hrun
    · rw [Grid.normalize_sized_readSize] at hrun
      cases hrun
      exact ⟨refusal', v', hrun', hcall.symm⟩

end CanonicalAccess
