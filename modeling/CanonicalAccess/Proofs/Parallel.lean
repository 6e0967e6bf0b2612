import CanonicalAccess.Normalization.Expansion
import CanonicalAccess.Proofs.NormalForm

/-!
# Parallel trees

Two trees are parallel if they are related node by node: a node of the one and the node in the same
place of the other are related as nodes, whatever their children, and so are their children in
turn. What a normalizer decides at a node depends on its kind, on the method that it calls and on
the number of its children. A relation between nodes that keeps to these, and goes on to hold when
nodes are given other children, is a correspondence; along one, rebuilt nodes and canonical nodes
are parallel if their children are.
-/

set_option autoImplicit false

namespace CanonicalAccess.Expr

/-- The member that a call goes to. -/
def callee? : Expr → Option Member
  | call _ _ m _ => some m
  | _ => none

/-- Nodes of one kind that go to the same member if they are calls, or nothing in both places. -/
structure SameSort (e e' : Expr) : Prop where
  isAbsent : e'.isAbsent = e.isAbsent
  kind? : e'.kind? = e.kind?
  callee? : e'.callee? = e.callee?

/-- A node without its label and its children. The payload of a constant and the parameters of a
lambda stay. -/
def head : Expr → Expr
  | absent => absent
  | constant _ v t => constant 0 v t
  | parameter _ n t => parameter 0 n t
  | member _ _ p => member 0 absent p
  | index _ _ p _ => index 0 absent p []
  | assign _ _ _ => assign 0 absent absent
  | call _ _ m _ => call 0 absent m []
  | unary _ o _ t => unary 0 o absent t
  | binary _ o _ _ t => binary 0 o absent absent t
  | conditional _ _ _ _ => conditional 0 absent absent absent
  | lambda _ ps _ => lambda 0 ps absent
  | bare _ => bare 0

/-- A relation between nodes in which their children have no part. It relates nodes of the same sort
only, and nodes of a canonical form if they have the same head. -/
structure Correspondence (heads : Expr → Expr → Prop) : Prop where
  sameSort : ∀ {e e'}, heads e e' → SameSort e e'
  rebuild : ∀ {e e' cs cs'} (l l' : Label), cs.length = e.children.length →
    cs'.length = e'.children.length → heads e e' → heads (e.rebuild l cs) (e'.rebuild l' cs')
  canonical : ∀ {e e'}, e.isCanonical = true → e.head = e'.head → heads e e'

/-- Trees whose nodes are related place by place. -/
inductive Parallel (heads : Expr → Expr → Prop) : Expr → Expr → Prop where
  | intro {e e' : Expr} (head : heads e e')
      (children : List.Forall₂ (Parallel heads) e.children e'.children) : Parallel heads e e'

/-- A rebuilt node has the same head. -/
theorem head_rebuild {l : Label} {e : Expr} {cs : List Expr}
    (hlen : cs.length = e.children.length) : (e.rebuild l cs).head = e.head := by
  induction e, cs, hlen using children_cases with
  | _ => rfl

namespace SameSort

variable {e e' : Expr}

/-- Nodes with the same head are of one sort. -/
theorem of_head_eq (h : e.head = e'.head) : SameSort e e' := by
  cases e <;> cases e' <;> cases h <;> exact ⟨rfl, rfl, rfl⟩

/-- Of two nodes of one sort, both call a method or neither does. -/
theorem callsMethod (h : SameSort e e') : e'.callsMethod = e.callsMethod := by
  have hcallee := h.callee?
  cases e <;> cases e' <;> simp_all [Expr.callee?, Expr.callsMethod]

/-- A node of the sort of one without children has none. -/
theorem children_eq_nil (h : SameSort e e') (hnil : e.children = []) : e'.children = [] := by
  have hkind := h.kind?
  cases e <;> cases hnil <;> cases e' <;> first | rfl | cases hkind

/-- What is of the sort of a call is a call of the same member. -/
theorem exists_call {l : Label} {receiver : Expr} {m : Member} {arguments : List Expr}
    (h : SameSort (.call l receiver m arguments) e') :
    ∃ l' receiver' arguments', e' = .call l' receiver' m arguments' := by
  have hcallee := h.callee?
  cases e' with
  | call l' receiver' m' arguments' =>
    cases hcallee
    exact ⟨l', receiver', arguments', rfl⟩
  | _ => cases hcallee

end SameSort

namespace Parallel

variable {heads : Expr → Expr → Prop} {e e' : Expr}

/-- The roots of parallel trees are related. -/
theorem head (h : Parallel heads e e') : heads e e' := by
  cases h with
  | intro head _ => exact head

/-- The children of parallel trees are parallel. -/
theorem children (h : Parallel heads e e') :
    List.Forall₂ (Parallel heads) e.children e'.children := by
  cases h with
  | intro _ children => exact children

/-- In lists of parallel trees the last ones are parallel. -/
theorem getLastD {d d' : Expr} {es es' : List Expr} (hd : Parallel heads d d')
    (h : List.Forall₂ (Parallel heads) es es') :
    Parallel heads (es.getLastD d) (es'.getLastD d') := by
  induction h generalizing d d' with
  | nil => exact hd
  | cons he _ ih =>
    rw [List.getLastD_cons, List.getLastD_cons]
    exact ih he

variable (corresponds : Correspondence heads)

include corresponds

/-- A call has the same method and as many arguments in a parallel tree. -/
theorem exists_call {l : Label} {receiver : Expr} {m : Member} {arguments : List Expr}
    (h : Parallel heads (.call l receiver m arguments) e') :
    ∃ l' receiver' arguments', e' = .call l' receiver' m arguments' ∧
      arguments'.length = arguments.length := by
  obtain ⟨l', receiver', arguments', rfl⟩ := (corresponds.sameSort h.head).exists_call
  refine ⟨l', receiver', arguments', rfl, ?_⟩
  have hlength := h.children.length_eq
  rw [children_call, children_call, List.length_cons, List.length_cons] at hlength
  exact (Nat.succ.inj hlength).symm

/-- Of two parallel trees, both are accessor calls or neither is. -/
theorem isAccessorShaped (h : Parallel heads e e') :
    e'.isAccessorShaped = e.isAccessorShaped := by
  cases e with
  | call l receiver m arguments =>
    obtain ⟨l', receiver', arguments', rfl, hlength⟩ := h.exists_call corresponds
    cases m with
    | absent | property p => rfl
    | method m => rw [isAccessorShaped_call, isAccessorShaped_call, hlength]
  | _ =>
    have hcallee := (corresponds.sameSort h.head).callee?
    cases e' with
    | call => cases hcallee
    | _ => rfl

/-- A tree that lacks nothing has no parallel tree that lacks something. -/
theorem fits (h : Parallel heads e e') (hcomplete : e.isAbsent = false → e.complete = true) :
    Fits e e' := by
  induction e using children_induction generalizing e' with
  | step e ih =>
    have hsort := corresponds.sameSort h.head
    cases hpresent : e.isAbsent with
    | true =>
      have habsent := hsort.isAbsent.trans hpresent
      exact ⟨hsort.isAbsent, fun hpresent' => absurd (habsent.symm.trans hpresent') nofun⟩
    | false =>
      obtain ⟨hk, hm, hrequired, hchildren⟩ :=
        (complete_iff_children e).mp (hcomplete hpresent)
      have hmem : ∀ c ∈ e.children, ∀ c', Parallel heads c c' → Fits c c' :=
        fun c hc c' hc' => ih c hc hc' (hchildren c hc)
      have hfits : List.Forall₂ Fits e.children e'.children :=
        ((List.forall₂_and_left _ _).mpr ⟨hmem, h.children⟩).imp fun _ _ hc => hc.1 _ hc.2
      exact Fits.of_children hsort.kind? hsort.callsMethod hfits hk hm hrequired

/-- Parallel nodes that are given parallel children are parallel. -/
theorem rebuild {cs cs' : List Expr} (l l' : Label) (hlen : cs.length = e.children.length)
    (h : Parallel heads e e') (hcs : List.Forall₂ (Parallel heads) cs cs') :
    Parallel heads (e.rebuild l cs) (e'.rebuild l' cs') := by
  have hlen' : cs'.length = e'.children.length := by
    rw [← hcs.length_eq, hlen, h.children.length_eq]
  refine .intro (corresponds.rebuild l l' hlen hlen' h.head) ?_
  rw [children_rebuild hlen, children_rebuild hlen']
  exact hcs

/-- So are canonical nodes that carry the same property. -/
theorem canonicalNode {l l' : Label} {a : Access} {p : Property} {receiver receiver' : Expr}
    {arguments arguments' : List Expr} (takes : a.Takes arguments.length)
    (hreceiver : Parallel heads receiver receiver')
    (harguments : List.Forall₂ (Parallel heads) arguments arguments') :
    Parallel heads (Normalization.canonicalNode l a p receiver arguments)
      (Normalization.canonicalNode l' a p receiver' arguments') := by
  have hmember : ∀ l l', Parallel heads (.member l receiver (.property p))
      (.member l' receiver' (.property p)) :=
    fun l l' => .intro (corresponds.canonical rfl rfl) (.cons hreceiver .nil)
  have hindex : ∀ l l' as as', List.Forall₂ (Parallel heads) as as' →
      Parallel heads (.index l receiver (.property p) as) (.index l' receiver' (.property p) as') :=
    fun l l' as as' has => .intro (corresponds.canonical rfl rfl) (.cons hreceiver has)
  have hassign : ∀ l l' t t', a.role = .setter → Parallel heads t t' →
      Parallel heads (.assign l t (arguments.getLastD .absent))
        (.assign l' t' (arguments'.getLastD .absent)) := by
    intro l l' t t' hrole ht
    refine .intro (corresponds.canonical rfl rfl) (.cons ht (.cons ?_ .nil))
    cases harguments with
    | nil => exact absurd rfl (takes.ne_nil hrole)
    | cons hfirst hrest =>
      rw [List.getLastD_cons, List.getLastD_cons]
      exact getLastD hfirst hrest
  have hinit : List.Forall₂ (Parallel heads) arguments.dropLast arguments'.dropLast := by
    rw [List.dropLast_eq_take, List.dropLast_eq_take, ← harguments.length_eq]
    exact List.forall₂_take _ harguments
  cases a with
  | readProperty => exact hmember l l'
  | readIndexer => exact hindex l l' _ _ harguments
  | writeProperty => exact hassign _ _ _ _ rfl (hmember l l')
  | writeIndexer => exact hassign _ _ _ _ rfl (hindex l l' _ _ hinit)

end Parallel

end CanonicalAccess.Expr
