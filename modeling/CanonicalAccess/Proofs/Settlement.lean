import CanonicalAccess.Proofs.Freshness

/-!
# Settling accessor calls

What the normalizer concludes at a node, said once for each way it can go. At an accessor call the
question of its shape is asked, and a property that the method backs gives the canonical node;
at any other node the transformer does what every transformer does. `conclude_cases` is the
inversion of a conclusion, and `normalizer_induction` the induction over whole walks that it gives.
-/

set_option autoImplicit false

namespace CanonicalAccess

/-- The numbers of arguments with which an access is called. -/
def Access.Takes : Access → Nat → Prop
  | .readProperty, n => n = 0
  | .readIndexer, n => 0 < n
  | .writeProperty, n => n = 1
  | .writeIndexer, n => 1 < n

/-- A write comes with a value. -/
theorem Access.Takes.ne_nil {α : Type} {a : Access} {as : List α} (h : a.Takes as.length)
    (hrole : a.role = .setter) : as ≠ [] := by
  rintro rfl
  cases a with
  | readProperty | readIndexer => cases hrole
  | writeProperty => exact absurd h (by simp [Access.Takes])
  | writeIndexer => exact absurd h (by simp [Access.Takes])

/-- The arguments of a write are the indices and, last, the value. -/
theorem dropLast_append_getLastD {α : Type} {as : List α} {d : α} (h : as ≠ []) :
    as.dropLast ++ [as.getLastD d] = as := by
  rw [List.getLastD_eq_getLast?, List.getLast?_eq_some_getLast h, Option.getD_some,
    List.dropLast_append_getLast h]

/-- The number of nodes that the canonical form of an access adds. -/
def Access.newNodes : Access → Nat
  | .readProperty | .readIndexer => 1
  | .writeProperty | .writeIndexer => 2

/-- A call in the shape of an access has as many arguments as the access takes. -/
theorem Method.takes_of_access? {m : Method} {n : Nat} {a : Access} {name : String}
    (h : m.access? n = some (a, name)) : a.Takes n := by
  unfold Method.access? at h
  split at h
  · rename_i role _ _
    rw [Option.map_eq_some_iff] at h
    obtain ⟨a', ha, heq⟩ := h
    cases heq
    match role, n with
    | .getter, 0 => cases ha; rfl
    | .getter, n + 1 => cases ha; exact Nat.succ_pos n
    | .setter, 0 => cases ha
    | .setter, 1 => cases ha; rfl
    | .setter, n + 2 => cases ha; exact Nat.succ_lt_succ (Nat.succ_pos n)
  · cases h

/-- A call is an accessor call exactly if its method has the shape of an access. -/
theorem Expr.isAccessorShaped_call (l : Label) (r : Expr) (m : Method) (as : List Expr) :
    (Expr.call l r (.method m) as).isAccessorShaped = (m.access? as.length).isSome := rfl

/-- An accessor call and what its children became, laid open. -/
theorem Expr.exists_access {e : Expr} {cs : List Expr} (hlen : cs.length = e.children.length)
    (hshaped : e.isAccessorShaped = true) :
    ∃ l receiver m arguments receiver' arguments' a name,
      e = .call l receiver (.method m) arguments ∧ cs = receiver' :: arguments' ∧
        arguments'.length = arguments.length ∧ m.access? arguments.length = some (a, name) := by
  induction e, cs, hlen using Expr.children_cases with
  | call l receiver m arguments receiver' arguments' hlen =>
    cases m with
    | absent | property p => cases hshaped
    | method m =>
      rw [isAccessorShaped_call, Option.isSome_iff_exists] at hshaped
      obtain ⟨⟨a, name⟩, shape⟩ := hshaped
      exact ⟨l, receiver, m, arguments, receiver', arguments', a, name, rfl, rfl, hlen, shape⟩
  | _ => cases hshaped

namespace Normalization

variable {metadata : Metadata}

/-- The canonical form of an access, from the first free label on. -/
def canonicalNode (l : Label) (a : Access) (p : Property) (receiver : Expr)
    (arguments : List Expr) : Expr :=
  match a with
  | .readProperty => .member l receiver (.property p)
  | .readIndexer => .index l receiver (.property p) arguments
  | .writeProperty =>
    .assign (l + 1) (.member l receiver (.property p)) (arguments.getLastD .absent)
  | .writeIndexer =>
    .assign (l + 1) (.index l receiver (.property p) arguments.dropLast)
      (arguments.getLastD .absent)

/-- To make the canonical node takes a label for each new node. -/
theorem canonical_apply (a : Access) (p : Property) (receiver : Expr) (arguments : List Expr)
    (w : Work) :
    canonical a p receiver arguments w =
      .ok (canonicalNode w.nextLabel a p receiver arguments)
        { w with nextLabel := w.nextLabel + a.newNodes } := by
  cases a <;> rfl

/-- The canonical node is new. -/
theorem label?_canonicalNode (l : Label) (a : Access) (p : Property) (receiver : Expr)
    (arguments : List Expr) :
    ∃ l', (canonicalNode l a p receiver arguments).label? = some l' ∧ l ≤ l' := by
  cases a with
  | readProperty | readIndexer => exact ⟨l, rfl, Nat.le_refl l⟩
  | writeProperty | writeIndexer => exact ⟨l + 1, rfl, Nat.le_succ l⟩

/-- A question is kept, whether it is answered or not. -/
theorem ask_apply (q : Query) (w : Work) :
    ask metadata q w = match metadata.answer w.asked q with
      | .ok found => .ok found { w with asked := w.asked ++ [q] }
      | .error f => .error f { w with asked := w.asked ++ [q] } := by
  have hask : ask metadata q w =
      Transform.ofExcept (metadata.answer w.asked q) { w with asked := w.asked ++ [q] } := rfl
  rw [hask, Transform.ofExcept_apply]
  cases metadata.answer w.asked q <;> rfl

/-- The work done once an accessor call is settled. -/
def settledWork (w : Work) (m : Method) (a : Access) (q : Query) : Work :=
  { w with
    nextLabel := w.nextLabel + a.newNodes
    log := w.log ++ [.replaced m.name a.resultKind]
    settled := w.settled + 1
    asked := w.asked ++ [q] }

/-- An accessor call that poses a question is settled by the answer, and fails with it. -/
theorem settle_apply {call receiver : Expr} {m : Method} {a : Access} {name : String} {q : Query}
    {arguments : List Expr} (hq : m.query? a name = some q) (w : Work) :
    settle metadata call m a name receiver arguments w =
      match metadata.answer w.asked q >>= backing call m a q with
      | .ok p => .ok (canonicalNode w.nextLabel a p receiver arguments) (settledWork w m a q)
      | .error f => .error f { w with asked := w.asked ++ [q] } := by
  simp only [settle, hq, bind, EStateM.bind, ask_apply]
  cases hanswer : metadata.answer w.asked q with
  | error f => rfl
  | ok found =>
    simp only [Except.bind, Transform.ofExcept_apply]
    cases hbacking : backing call m a q found with
    | error f => rfl
    | ok p =>
      simp only [canonical_apply]
      rfl

/-- Only a property that the method backs in its role stands behind an accessor call. -/
theorem backing_eq_ok_iff {call : Expr} {m : Method} {a : Access} {q : Query} {found : Member}
    {p : Property} :
    backing call m a q found = .ok p ↔ found = .property p ∧ p.accessor a.role = .method m := by
  cases found with
  | absent => simp [backing, throw, throwThe, MonadExceptOf.throw]
  | method m' => simp [backing, throw, throwThe, MonadExceptOf.throw]
  | property p' =>
    by_cases hp : p'.accessor a.role = .method m
    · simp only [backing, hp, if_true, Member.property.injEq]
      constructor
      · intro h
        cases h
        exact ⟨rfl, hp⟩
      · rintro ⟨rfl, -⟩
        rfl
    · simp only [backing, hp, if_false, Member.property.injEq]
      constructor
      · intro h
        cases h
      · rintro ⟨rfl, h⟩
        exact absurd h hp

/-- What is known once an accessor call is settled. -/
theorem settle_ok {call receiver r : Expr} {m : Method} {arguments : List Expr} {a : Access}
    {name : String} {w w' : Work}
    (h : settle metadata call m a name receiver arguments w = .ok r w') :
    ∃ q p, m.query? a name = some q ∧ metadata.answer w.asked q = .ok (.property p) ∧
      p.accessor a.role = .method m ∧ r = canonicalNode w.nextLabel a p receiver arguments ∧
      w' = settledWork w m a q := by
  cases hq : m.query? a name with
  | none =>
    simp only [settle, hq] at h
    cases h
  | some q =>
    rw [settle_apply hq] at h
    cases hfound : metadata.answer w.asked q >>= backing call m a q with
    | error f =>
      rw [hfound] at h
      cases h
    | ok p =>
      rw [hfound] at h
      cases h
      cases hanswer : metadata.answer w.asked q with
      | error f =>
        rw [hanswer] at hfound
        cases hfound
      | ok found =>
        rw [hanswer] at hfound
        obtain ⟨rfl, backed⟩ := backing_eq_ok_iff.mp hfound
        exact ⟨q, p, rfl, hanswer, backed, rfl, rfl⟩

/-- An accessor call that was settled: it posed a question, the answer was a property that the
method backs, and the canonical node took its place. -/
inductive Settled (metadata : Metadata) : Expr → List Expr → Work → Expr → Work → Prop where
  | intro {l : Label} {receiver receiver' : Expr} {m : Method} {arguments arguments' : List Expr}
      {a : Access} {name : String} {q : Query} {p : Property} {w : Work}
      (shape : m.access? arguments.length = some (a, name)) (query : m.query? a name = some q)
      (answer : metadata.answer w.asked q = .ok (.property p))
      (backed : p.accessor a.role = .method m) :
      Settled metadata (.call l receiver (.method m) arguments) (receiver' :: arguments') w
        (canonicalNode w.nextLabel a p receiver' arguments') (settledWork w m a q)

/-- As many children are reused as there are. -/
theorem length_reuse {es es' : List Expr} (h : es'.length = es.length) :
    (Transformer.reuse es es').length = es.length := by
  unfold Transformer.reuse
  split
  · exact h
  · rfl

/-- At an accessor call the normalizer settles it. -/
theorem conclude_of_access {l : Label} {receiver receiver' : Expr} {m : Method}
    {arguments arguments' : List Expr} {a : Access} {name : String}
    (hlen : arguments'.length = arguments.length)
    (shape : m.access? arguments.length = some (a, name)) :
    (normalizer metadata).conclude (.call l receiver (.method m) arguments)
        (receiver' :: arguments') =
      settle metadata (.call l receiver (.method m) arguments) m a name receiver'
        (Transformer.reuse arguments arguments') := by
  simp only [Transformer.conclude, normalizer, onCall, length_reuse hlen, shape]

/-- At any other node the normalizer does what every transformer does. -/
theorem conclude_of_not_shaped {e : Expr} {cs : List Expr} (hlen : cs.length = e.children.length)
    (hm : e.callsMethod = true) (hshaped : e.isAccessorShaped = false) :
    (normalizer metadata).conclude e cs = e.refit cs := by
  induction e, cs, hlen using Expr.children_cases with
  | call l r m as r' as' hlen =>
    cases m with
    | absent | property p => cases hm
    | method m =>
      have hnone : m.access? as.length = none := by
        simpa [Expr.isAccessorShaped_call] using hshaped
      simp only [Transformer.conclude, normalizer, onCall, length_reuse hlen, hnone, Expr.refit]
  | constant l v t => exact (Expr.refit_children (.constant l v t)).symm
  | parameter l n t => exact (Expr.refit_children (.parameter l n t)).symm
  | _ => rfl

/-- Only a call to a method leads to a conclusion. -/
theorem callsMethod_of_conclude {e r : Expr} {cs : List Expr} {w w' : Work}
    (hlen : cs.length = e.children.length)
    (h : (normalizer metadata).conclude e cs w = .ok r w') : e.callsMethod = true := by
  induction e, cs, hlen using Expr.children_cases with
  | call l r m as r' as' hlen =>
    cases m with
    | method m => rfl
    | absent | property p => cases h
  | _ => rfl

/-- Every conclusion of the normalizer leaves the node as it is apart from its children, or settles
an accessor call. -/
theorem conclude_cases {e r : Expr} {cs : List Expr} {w w' : Work}
    (hcs : Expr.Faithful e.children cs) (h : (normalizer metadata).conclude e cs w = .ok r w') :
    (e.isAccessorShaped = false ∧ e.callsMethod = true ∧ e.refit cs w = .ok r w') ∨
      (e.isAccessorShaped = true ∧ Settled metadata e cs w r w') := by
  have hlen := hcs.length_eq.symm
  have hm := callsMethod_of_conclude hlen h
  cases hshaped : e.isAccessorShaped with
  | false =>
    rw [conclude_of_not_shaped hlen hm hshaped] at h
    exact .inl ⟨rfl, hm, h⟩
  | true =>
    obtain ⟨l, receiver, m, as, receiver', as', a, name, rfl, rfl, hlen, shape⟩ :=
      Expr.exists_access hlen hshaped
    obtain ⟨-, has⟩ := List.forall₂_cons.mp hcs
    have hreuse : Transformer.reuse as as' = as' := Expr.Faithful.reuse_eq has
    rw [conclude_of_access hlen shape, hreuse] at h
    obtain ⟨q, p, query, answer, backed, rfl, rfl⟩ := settle_ok h
    exact .inr ⟨rfl, .intro shape query answer backed⟩

/-- At a call the normalizer answers with the call itself or a new node. -/
theorem onCall_sameOrNew {e receiver r : Expr} {arguments : List Expr} {w w' : Work}
    (h : onCall metadata e receiver arguments w = .ok r w') :
    w.nextLabel ≤ w'.nextLabel ∧ e.SameOrNew w.nextLabel r := by
  unfold onCall at h
  split at h
  · rename_i l r₀ m as
    cases hshape : m.access? arguments.length with
    | none =>
      rw [hshape] at h
      exact Expr.update_sameOrNew h
    | some shape =>
      rw [hshape] at h
      obtain ⟨q, p, -, -, -, rfl, rfl⟩ := settle_ok h
      exact ⟨Nat.le_add_right _ _, .inr (label?_canonicalNode _ _ _ _ _)⟩
  · cases h

/-- The normalizer never takes a label back, and in place of a node it hands back the node itself or
a new one. -/
theorem careful_normalizer (metadata : Metadata) : (normalizer metadata).Careful where
  enter := by
    intro k w w' h
    cases h
    exact Nat.le_refl _
  conclude := by
    intro e cs w r w' h
    unfold Transformer.conclude at h
    split at h
    · cases h
      exact ⟨Nat.le_refl _, .inl rfl⟩
    · cases h
      exact ⟨Nat.le_refl _, .inl rfl⟩
    · exact onCall_sameOrNew h
    · exact Expr.update_sameOrNew h
    · exact Expr.refit_sameOrNew h

/-- Induction over successful walks of the normalizer in a tree whose labels are taken: a node is
given what its children became, or it is an accessor call and is settled. -/
@[elab_as_elim]
theorem normalizer_induction {motive : Expr → Expr → Prop} (absent : motive .absent .absent)
    (refit : ∀ e cs w r w', e.kind?.isSome = true → e.callsMethod = true →
      e.isAccessorShaped = false → e.labelsBelow w.nextLabel = true →
      Expr.Faithful e.children cs → List.Forall₂ motive e.children cs →
      (∀ c ∈ e.required, c.isAbsent = false) → e.refit cs w = .ok r w' → motive e r)
    (settled : ∀ e cs w r w', e.isAccessorShaped = true → e.labelsBelow w.nextLabel = true →
      List.Forall₂ motive e.children cs → (∀ c ∈ e.required, c.isAbsent = false) →
      Settled metadata e cs w r w' → motive e r)
    {e r : Expr} {w w' : Work} (known : e.labelsBelow w.nextLabel = true)
    (h : (normalizer metadata).Visit e w r w') : motive e r := by
  refine Transformer.known_visit_induction (careful_normalizer metadata) absent ?_ known h
  intro e k cs w r w' hk known hfaithful hcs hrequired hconclude
  rcases conclude_cases hfaithful hconclude with ⟨hshaped, hm, hrefit⟩ | ⟨hshaped, hsettled⟩
  · exact refit e cs w r w' (by simp [hk]) hm hshaped known hfaithful hcs hrequired hrefit
  · exact settled e cs w r w' hshaped known hcs hrequired hsettled

/-- The count goes up at accessor calls and nowhere else. -/
theorem settled_of_conclude {e r : Expr} {cs : List Expr} {w w' : Work}
    (hlen : cs.length = e.children.length)
    (h : (normalizer metadata).conclude e cs w = .ok r w') :
    w'.settled = w.settled + if e.isAccessorShaped then 1 else 0 := by
  have hm := callsMethod_of_conclude hlen h
  cases hshaped : e.isAccessorShaped with
  | false =>
    rw [conclude_of_not_shaped hlen hm hshaped] at h
    obtain ⟨r', n, hrefit, -, -⟩ := Expr.exists_refit e cs w
    rw [hrefit] at h
    cases h
    rfl
  | true =>
    obtain ⟨l, receiver, m, as, receiver', as', a, name, rfl, rfl, hlen, shape⟩ :=
      Expr.exists_access hlen hshaped
    rw [conclude_of_access hlen shape] at h
    obtain ⟨q, p, -, -, -, -, rfl⟩ := settle_ok h
    rfl

/-- The visits of children settle the accessor calls of them all. -/
theorem settled_of_visits {cs cs' : List Expr} {w w' : Work}
    (h : Transformer.Visits (fun c w _ w' => w'.settled = w.settled + c.accessorCalls.length)
      cs w cs' w') :
    w'.settled = w.settled + (cs.flatMap Expr.accessorCalls).length := by
  induction h with
  | nil w => rfl
  | cons head _ ih => rw [ih, head, List.flatMap_cons, List.length_append, Nat.add_assoc]

/-- A walk settles every accessor call of a tree, and each once for every place it has. -/
theorem settled_of_visit {e r : Expr} {w w' : Work} (h : (normalizer metadata).Visit e w r w') :
    w'.settled = w.settled + e.accessorCalls.length := by
  refine Transformer.visit_induction ?_ ?_ h
  · intro w
    rfl
  · intro e k w w₁ cs w₂ r w' _ henter hvisits _ hconclude
    cases henter
    have hchildren := settled_of_visits (hvisits.imp fun c _ w c' w' h => h.2)
    rw [settled_of_conclude hvisits.length_eq hconclude, hchildren,
      Expr.accessorCalls_eq_flatMap_children, List.length_append, Nat.add_assoc]
    cases e.isAccessorShaped <;> rfl

end Normalization

/-- Normalization is a walk with the count at zero, and a record of the count it comes to. -/
theorem normalize_apply (metadata : Metadata) (t : Expr) (w : Work) :
    normalize metadata t w =
      ((Normalization.normalizer metadata).accept t >>= fun result => do
        let w ← get
        Transform.record (.normalized w.settled)
        return result) { w with settled := 0 } := rfl

/-- A tree is normalized exactly if the walk succeeds when counting starts anew; the count is
recorded at the end. -/
theorem normalize_eq_ok_iff {metadata : Metadata} {t r : Expr} {w w' : Work} :
    normalize metadata t w = .ok r w' ↔
      ∃ w₁, (Normalization.normalizer metadata).accept t { w with settled := 0 } = .ok r w₁ ∧
        w' = { w₁ with log := w₁.log ++ [.normalized w₁.settled] } := by
  rw [normalize_apply, Transform.bind_eq_ok_iff]
  constructor
  · rintro ⟨result, w₁, haccept, hrecord⟩
    cases hrecord
    exact ⟨w₁, haccept, rfl⟩
  · rintro ⟨w₁, haccept, rfl⟩
    exact ⟨r, w₁, haccept, rfl⟩

/-- Normalization fails exactly if the walk does, and then it records no count. -/
theorem normalize_eq_error_iff {metadata : Metadata} {t : Expr} {fault : Fault} {w w' : Work} :
    normalize metadata t w = .error fault w' ↔
      (Normalization.normalizer metadata).accept t { w with settled := 0 } = .error fault w' := by
  rw [normalize_apply, Transform.bind_eq_error_iff]
  constructor
  · rintro (haccept | ⟨r, w₁, -, hrecord⟩)
    · exact haccept
    · cases hrecord
  · exact .inl

/-! A grid with an indexer over its rows, and a function that copies its first cell to the row it
is given: one accessor call inside another, below a lambda. -/

namespace Grid

def type : Ty := .ofClass "Grid"

def getter : Method := ⟨0, "get_Item", type, [.i32], .f64, true, false⟩

def setter : Method := ⟨1, "set_Item", type, [.i32, .f64], .void, true, false⟩

def cells : Property :=
  ⟨2, "Item", type, .f64, [.i32], .method getter, .method setter, true, false⟩

def provider : Provider := .fixed .absent (.property cells)

def grid : Expr := .parameter 0 "grid" type

def row : Expr := .parameter 1 "row" .i32

def first : Expr := .constant 2 (.int 0) .i32

def readFirst : Expr := .call 3 grid (.method getter) [first]

def copyFirst : Expr := .lambda 5 [row] (.call 4 grid (.method setter) [row, readFirst])

/-- What the function is normalized to. -/
def copiedFirst : Expr :=
  .lambda 9 [row]
    (.assign 8 (.index 7 grid (.property cells) [row]) (.index 6 grid (.property cells) [first]))

/-- The copy of the first cell is normalized with two calls settled. -/
theorem normalize_copyFirst :
    normalize provider copyFirst (Work.start 6) = .ok copiedFirst
      { nextLabel := 10
        log := [.replaced "get_Item" .index, .replaced "set_Item" .assign, .normalized 2]
        settled := 2
        asked := [.indexer type "Item" .f64 [.i32], .indexer type "Item" .f64 [.i32]] } := rfl

end Grid

end CanonicalAccess
