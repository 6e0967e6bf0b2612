import CanonicalAccess.Proofs.Commutation

/-!
# Rewriting leaves twice

Trees of one shape are determined by their leaves, up to labels. So a tree whose leaves are
rewritten is determined by its shape and by the answers. If the answers of two transformers depend
on nothing but the leaf, then it is the same to rewrite a tree with the one and the result with the
other, and to rewrite it once with the two in turn at each leaf.

The answers may depend on which node a leaf is, as long as it was there before: only nodes made
since then cannot be told apart (`Interchangeable`).
-/

set_option autoImplicit false

namespace CanonicalAccess

open CanonicalAccess.Expr (Parallel)

/-! ### Trees of one shape -/

namespace Expr

namespace Kept

variable {e r : Expr}

/-- What is kept is there exactly if it was. -/
theorem isAbsent (h : Kept e r) : r.isAbsent = e.isAbsent := by
  cases he : e.isLeaf with
  | true =>
    have hr := (isLeaf_eq_of_kind?_eq h.kind).trans he
    cases e <;> cases he <;> cases r <;> cases hr <;> rfl
  | false => exact (SameSort.of_head_eq (h.head he).symm).isAbsent

/-- What is kept and kept again is kept. -/
theorem trans {s : Expr} (h : Kept e r) (h' : Kept r s) : Kept e s :=
  ⟨h'.kind.trans h.kind, fun he =>
    (h'.head ((isLeaf_eq_of_kind?_eq h.kind).trans he)).trans (h.head he)⟩

end Kept

namespace Parallel

/-- Trees of one shape with kept nodes: two steps make one. -/
theorem kept_trans {e r s : Expr} (h : Parallel Kept e r) (h' : Parallel Kept r s) :
    Parallel Kept e s := by
  induction e using children_induction generalizing r s with
  | step e ih =>
    exact .intro (h.head.trans h'.head) (forall₂_trans_of_mem ih h.children h'.children)

/-- A filled tree stays filled where nodes are kept. -/
theorem filled_of_kept {e r : Expr} (h : Parallel Kept e r)
    (filled : e.isAbsent = false → e.Filled) : r.isAbsent = false → r.Filled := by
  induction e using children_induction generalizing r with
  | step e ih =>
    intro hpresent
    obtain ⟨hk, hrequired, hchildren⟩ :=
      (filled_iff_children e).mp (filled (h.head.isAbsent.symm.trans hpresent))
    have hfilled : List.Forall₂ (fun _ c' => c'.isAbsent = false → c'.Filled) e.children
        r.children := forall₂_imp_of_mem (fun c hc _ hc' => ih c hc hc' (hchildren c hc)) h.children
    rw [filled_iff_children, h.head.kind]
    exact ⟨hk, forall_required_present h.head.kind
      (h.children.imp fun _ _ hc => hc.head.isAbsent) hrequired, forall_of_forall₂ hfilled⟩

/-- Lists of trees with as many leaves each have as many together. -/
theorem length_flatMap_leafNodes {es rs : List Expr}
    (h : List.Forall₂ (fun e r => r.leafNodes.length = e.leafNodes.length) es rs) :
    (rs.flatMap leafNodes).length = (es.flatMap leafNodes).length := by
  induction h with
  | nil => rfl
  | cons head _ ih =>
    rw [List.flatMap_cons, List.flatMap_cons, List.length_append, List.length_append, head, ih]

/-- A tree with kept nodes has as many leaves. -/
theorem length_leafNodes {e r : Expr} (h : Parallel Kept e r) :
    r.leafNodes.length = e.leafNodes.length := by
  induction e using children_induction generalizing r with
  | step e ih =>
    have hleaf := isLeaf_eq_of_kind?_eq h.head.kind
    cases he : e.isLeaf with
    | true =>
      rw [leafNodes_of_isLeaf he, leafNodes_of_isLeaf (hleaf.trans he)]
      rfl
    | false =>
      have hlengths : List.Forall₂ (fun c c' => c'.leafNodes.length = c.leafNodes.length) e.children
          r.children := forall₂_imp_of_mem (fun c hc _ hc' => ih c hc hc') h.children
      rw [leafNodes_of_not_isLeaf he, leafNodes_of_not_isLeaf (hleaf.trans he)]
      exact length_flatMap_leafNodes hlengths

/-- Lists of trees of given shapes are determined by their leaves if each of the trees is. -/
theorem map_unlabelled_eq_of_kept {es rs rs' : List Expr}
    (determined : ∀ e ∈ es, ∀ {r r'}, Parallel Kept e r → Parallel Kept e r' →
      r.leafNodes.map unlabelled = r'.leafNodes.map unlabelled → r.unlabelled = r'.unlabelled)
    (h : List.Forall₂ (Parallel Kept) es rs) (h' : List.Forall₂ (Parallel Kept) es rs')
    (leaves : (rs.flatMap leafNodes).map unlabelled = (rs'.flatMap leafNodes).map unlabelled) :
    rs.map unlabelled = rs'.map unlabelled := by
  induction h generalizing rs' with
  | nil =>
    cases h'
    rfl
  | cons head _ ih =>
    obtain ⟨r', rest', head', tail', rfl⟩ := List.forall₂_cons_left_iff.mp h'
    rw [List.forall_mem_cons] at determined
    rw [List.flatMap_cons, List.flatMap_cons, List.map_append, List.map_append] at leaves
    -- As many of the leaves belong to the first tree of the one list as to that of the other.
    have hlength := head.length_leafNodes.trans head'.length_leafNodes.symm
    obtain ⟨hfirst, hrest⟩ := List.append_inj leaves (by simpa using hlength)
    rw [List.map_cons, List.map_cons, determined.1 head head' hfirst,
      ih determined.2 tail' hrest]

/-- A tree of a given shape is determined by its leaves, up to labels. -/
theorem unlabelled_eq_of_kept {e r r' : Expr} (h : Parallel Kept e r) (h' : Parallel Kept e r')
    (leaves : r.leafNodes.map unlabelled = r'.leafNodes.map unlabelled) :
    r.unlabelled = r'.unlabelled := by
  induction e using children_induction generalizing r r' with
  | step e ih =>
    have hleaf := isLeaf_eq_of_kind?_eq h.head.kind
    have hleaf' := isLeaf_eq_of_kind?_eq h'.head.kind
    cases he : e.isLeaf with
    | true =>
      rw [leafNodes_of_isLeaf (hleaf.trans he), leafNodes_of_isLeaf (hleaf'.trans he)] at leaves
      exact (List.cons.inj leaves).1
    | false =>
      rw [leafNodes_of_not_isLeaf (hleaf.trans he), leafNodes_of_not_isLeaf (hleaf'.trans he)]
        at leaves
      refine unlabelled_eq_of_head_eq ((h.head.head he).trans (h'.head.head he).symm) ?_
      exact map_unlabelled_eq_of_kept ih h.children h'.children leaves

end Parallel

/-- The same node, or two nodes that hold the same and were made when all labels below a bound were
taken: what has no hold on the identity of such nodes cannot tell them apart. -/
def Interchangeable (n : Label) (e e' : Expr) : Prop :=
  e = e' ∨ e.unlabelled = e'.unlabelled ∧
    (∃ l, e.label? = some l ∧ n ≤ l) ∧ ∃ l, e'.label? = some l ∧ n ≤ l

namespace Interchangeable

variable {n l : Label} {e e' : Expr} {t : Ty}

/-- Interchangeable expressions are equal up to labels. -/
theorem unlabelled_eq (h : Interchangeable n e e') : e.unlabelled = e'.unlabelled := by
  rcases h with rfl | ⟨heq, -⟩
  · rfl
  · exact heq

/-- What is interchangeable with a constant is a constant of the same payload and type. -/
theorem exists_constant {v : Value} (h : Interchangeable n (.constant l v t) e') :
    ∃ l', e' = .constant l' v t := by
  have heq := h.unlabelled_eq
  cases e' <;> cases heq
  exact ⟨_, rfl⟩

/-- What is interchangeable with a parameter is a parameter of the same name and type. -/
theorem exists_parameter {x : String} (h : Interchangeable n (.parameter l x t) e') :
    ∃ l', e' = .parameter l' x t := by
  have heq := h.unlabelled_eq
  cases e' <;> cases heq
  exact ⟨_, rfl⟩

end Interchangeable

end Expr

/-! ### Two rewrites -/

namespace Transformer

/-- Each leaf is answered by the one transformer, and the answer by the other. -/
def andThen (f g : Transformer) : Transformer where
  onConstant e := f.onConstant e >>= g.onConstant
  onParameter e := f.onParameter e >>= g.onParameter

/-- A transformer answers a leaf so at some time after all labels below a bound were taken. -/
def Answers (f : Transformer) (n : Label) (e r : Expr) : Prop :=
  ∃ w w', n ≤ w.nextLabel ∧ f.onLeaf e w = .ok r w'

/-- What a transformer answers depends on nothing but the leaf: whenever it is asked about the same
leaf, or about leaves that it cannot tell apart, it gives answers that cannot be told apart. -/
def IsPure (f : Transformer) (n : Label) : Prop :=
  ∀ e e' r r', e.isLeaf = true → Expr.Interchangeable n e e' → f.Answers n e r →
    f.Answers n e' r' → Expr.Interchangeable n r r'

variable {f g : Transformer}

/-- What comes of leaves, one behind the other, is what each is answered with. -/
theorem answers_of_passes (hf : f.RewritesLeaves) {es rs : List Expr} {w w' : Work} {n : Label}
    (h : f.Passes es w rs w') (leaves : ∀ e ∈ es, e.isLeaf = true) (le : n ≤ w.nextLabel) :
    List.Forall₂ (f.Answers n) es rs := by
  induction h with
  | nil w => exact .nil
  | label m hle _ ih => exact ih leaves (Nat.le_trans le hle)
  | leaf answer _ ih =>
    rw [List.forall_mem_cons] at leaves
    have hgrows := (hf.answered leaves.1 answer).grows
    exact .cons ⟨_, _, le, answer⟩ (ih leaves.2 (Nat.le_trans le hgrows))

/-- At a leaf two transformers go one after the other. -/
theorem onLeaf_andThen (hf : f.RewritesLeaves) {e a : Expr} {w w₁ : Work} (he : e.isLeaf = true)
    (h : f.onLeaf e w = .ok a w₁) : (f.andThen g).onLeaf e w = g.onLeaf a w₁ := by
  have hkind := (hf.answered he h).kind
  cases e with
  | constant l v t =>
    have hrun : f.onConstant (.constant l v t) w = .ok a w₁ := h
    cases a <;> cases hkind
    simp only [onLeaf, andThen, bind, EStateM.bind, hrun]
  | parameter l x t =>
    have hrun : f.onParameter (.parameter l x t) w = .ok a w₁ := h
    cases a <;> cases hkind
    simp only [onLeaf, andThen, bind, EStateM.bind, hrun]
  | _ => cases he

/-- One rewriter of leaves behind another rewrites leaves. -/
theorem RewritesLeaves.andThen (hf : f.RewritesLeaves) (hg : g.RewritesLeaves) :
    (f.andThen g).RewritesLeaves where
  enter := fun _ => rfl
  onCall := fun _ _ _ => rfl
  onUnary := fun _ _ => rfl
  answers := by
    intro e w he
    obtain ⟨a, w₁, ha, hanswered⟩ := hf.answers e w he
    have hleaf := (Expr.isLeaf_eq_of_kind?_eq hanswered.kind).trans he
    obtain ⟨r, w₂, hr, hanswered'⟩ := hg.answers a w₁ hleaf
    refine ⟨r, w₂, (onLeaf_andThen hf he ha).trans hr, hanswered'.kind.trans hanswered.kind,
      Nat.le_trans hanswered.grows hanswered'.grows, ?_⟩
    rcases hanswered'.new with rfl | ⟨l, hl, hle, hlt⟩
    · refine hanswered.new.imp_right ?_
      rintro ⟨l, hl, hle, hlt⟩
      exact ⟨l, hl, hle, Nat.lt_of_lt_of_le hlt hanswered'.grows⟩
    · exact .inr ⟨l, hl, Nat.le_trans hanswered.grows hle, hlt⟩

/-- What two transformers make of a leaf, one after the other. -/
def AnswersInTurn (f g : Transformer) (n : Label) (e b : Expr) : Prop :=
  ∃ a, f.Answers n e a ∧ g.Answers n a b

/-- What two rewriters answer in one go is what the second answers to the first. -/
theorem answersInTurn_of_andThen (hf : f.RewritesLeaves) {n : Label} {e b : Expr}
    (he : e.isLeaf = true) (h : (f.andThen g).Answers n e b) : f.AnswersInTurn g n e b := by
  obtain ⟨w, w', le, hb⟩ := h
  obtain ⟨a, w₁, ha, hanswered⟩ := hf.answers e w he
  rw [onLeaf_andThen hf he ha] at hb
  exact ⟨a, ⟨w, w₁, le, ha⟩, w₁, w', Nat.le_trans le hanswered.grows, hb⟩

/-- Answers to answers are answers in turn. -/
theorem answersInTurn_of_answers {n : Label} {es rs bs : List Expr}
    (h : List.Forall₂ (f.Answers n) es rs) (h' : List.Forall₂ (g.Answers n) rs bs) :
    List.Forall₂ (f.AnswersInTurn g n) es bs := by
  induction h generalizing bs with
  | nil =>
    cases h'
    exact .nil
  | cons head _ ih =>
    cases h' with
    | cons head' tail' => exact .cons ⟨_, head, head'⟩ (ih tail')

/-- Where answers depend on nothing but the leaf, what two transformers make of it in turn is
determined up to labels. -/
theorem AnswersInTurn.unlabelled_eq (hf : f.RewritesLeaves) {n : Label} (puref : f.IsPure n)
    (pureg : g.IsPure n) {e b b' : Expr} (he : e.isLeaf = true) (h : f.AnswersInTurn g n e b)
    (h' : f.AnswersInTurn g n e b') : b.unlabelled = b'.unlabelled := by
  obtain ⟨a, ha, hb⟩ := h
  obtain ⟨a', ha', hb'⟩ := h'
  have halike := puref e e a a' he (.inl rfl) ha ha'
  obtain ⟨w, w₁, -, hanswer⟩ := ha
  have hleaf := (Expr.isLeaf_eq_of_kind?_eq (hf.answered he hanswer).kind).trans he
  exact (pureg a a' b b' hleaf halike hb hb').unlabelled_eq

/-- Two rewrites of a tree, one after the other, and one with both in turn at each leaf have the
same result, up to the identity of nodes. -/
theorem unlabelled_eq_of_rewritesTo (hf : f.RewritesLeaves) (hg : g.RewritesLeaves)
    {e r r₂ r₃ : Expr} {w w' w₂ w₃ : Work} (hr : f.RewritesTo e w r w')
    (hr₂ : g.RewritesTo r w' r₂ w₂) (hr₃ : (f.andThen g).RewritesTo e w r₃ w₃)
    (grows : w.nextLabel ≤ w'.nextLabel) (puref : f.IsPure w.nextLabel)
    (pureg : g.IsPure w.nextLabel) : r₂.unlabelled = r₃.unlabelled := by
  have hleaves : ∀ l ∈ e.leafNodes, l.isLeaf = true := fun _ => Expr.isLeaf_of_mem_leafNodes
  have hfirst := answers_of_passes hf hr.passes hleaves (Nat.le_refl _)
  have hsecond := answers_of_passes hg hr₂.passes (fun _ => Expr.isLeaf_of_mem_leafNodes) grows
  have honce := answers_of_passes (hf.andThen hg) hr₃.passes hleaves (Nat.le_refl _)
  -- The two results have the shape of the tree, and their leaves agree place by place.
  refine (hr.parallel.kept_trans hr₂.parallel).unlabelled_eq_of_kept hr₃.parallel ?_
  refine Expr.map_unlabelled_eq (List.forall₂_same.mpr fun l hl b b' => ?_)
    (answersInTurn_of_answers hfirst hsecond)
    (forall₂_imp_of_mem (fun l hl _ => answersInTurn_of_andThen hf (hleaves l hl)) honce)
  exact AnswersInTurn.unlabelled_eq hf puref pureg (hleaves l hl)

end Transformer

/-- A transformer that rewrites leaves is a map of trees with exact sharing. Every filled tree is
rewritten; its leaves are passed once each, from left to right, and the answers stand in their
places in a tree that has the same shape and agrees in all else. A subtree, at whatever position,
is handed back itself exactly if all leaves in it are. To rewrite the result with another such
transformer gives the same tree, up to the identity of nodes, as to rewrite the tree once with the
two in turn at each leaf, if the answers of both depend on nothing but the leaf. -/
theorem accept_leaves {f : Transformer} (hf : f.RewritesLeaves) {t : Expr} (filled : t.Filled)
    {w : Work} (known : t.labelsBelow w.nextLabel = true) :
    ∃ r w', f.accept t w = .ok r w' ∧ f.Passes t.leafNodes w r.leafNodes w' ∧
      Parallel Expr.Kept t r ∧
      (∀ path s, t.subtree? path = some s → ∃ s' v, f.resultAt path t w = .ok s' v ∧
        r.subtree? path = some s' ∧
        (s'.same s = true ↔ Expr.sameAll s.leafNodes s'.leafNodes = true) ∧
        (s'.same s = true → s' = s)) ∧
      ∀ g : Transformer, g.RewritesLeaves → f.IsPure w.nextLabel → g.IsPure w.nextLabel →
        ∃ r₂ w₂ r₃ w₃, g.accept r w' = .ok r₂ w₂ ∧ (f.andThen g).accept t w = .ok r₃ w₃ ∧
          r₂.unlabelled = r₃.unlabelled := by
  obtain ⟨r, w', hvisit⟩ := hf.exists_visit (fun _ => filled) w
  have haccept := hvisit
  rw [Transformer.Visit, Transformer.apply_of_present f filled.1] at haccept
  have hr := hf.rewritesTo known hvisit
  refine ⟨r, w', haccept, hr.passes, hr.parallel, ?_, ?_⟩
  · intro path s hs
    obtain ⟨v, s', v', hwalk, hhere, hresult, hplace⟩ := hf.walkTo_of_visit known hvisit hs
    have hnew := (Transformer.visit_sameOrNew hf.careful hresult).2
    exact ⟨s', v', (Transform.bind_eq_ok_iff _ _ _ _ _).mpr ⟨s, v, hwalk, hresult⟩, hplace,
      (hf.rewritesTo hhere hresult).same_iff, hnew.eq_of_same hhere⟩
  · intro g hg puref pureg
    have hgrows := (Transformer.visit_sameOrNew hf.careful hvisit).1
    have hpresent : r.isAbsent = false := hr.parallel.head.isAbsent.trans filled.1
    obtain ⟨r₂, w₂, hsecond⟩ := hg.exists_visit (hr.parallel.filled_of_kept fun _ => filled) w'
    obtain ⟨r₃, w₃, honce⟩ := (hf.andThen hg).exists_visit (fun _ => filled) w
    have hr₂ := hg.rewritesTo (hf.labelsBelow_of_visit known hvisit) hsecond
    have hr₃ := (hf.andThen hg).rewritesTo known honce
    rw [Transformer.Visit, Transformer.apply_of_present g hpresent] at hsecond
    rw [Transformer.Visit, Transformer.apply_of_present _ filled.1] at honce
    exact ⟨r₂, w₂, r₃, w₃, hsecond, honce,
      Transformer.unlabelled_eq_of_rewritesTo hf hg hr hr₂ hr₃ hgrows puref pureg⟩

/-! Putting zero for every constant and a prime to every parameter that is used: the function that
copies the first cell keeps its row when the constants go, and its own parameter in any case. -/

namespace Transformer

/-- The transformer that writes zeros rewrites leaves. -/
theorem rewritesLeaves_zero : zero.RewritesLeaves where
  enter := fun _ => rfl
  onCall := fun _ _ _ => rfl
  onUnary := fun _ _ => rfl
  answers := by
    intro e w he
    cases e with
    | constant l v t =>
      exact ⟨_, _, rfl, rfl, Nat.le_succ _, .inr ⟨_, rfl, Nat.le_refl _, Nat.lt_succ_self _⟩⟩
    | parameter l x t => exact ⟨_, _, rfl, rfl, Nat.le_refl _, .inl rfl⟩
    | _ => cases he

/-- The transformer that renames rewrites leaves. -/
theorem rewritesLeaves_rename : rename.RewritesLeaves where
  enter := fun _ => rfl
  onCall := fun _ _ _ => rfl
  onUnary := fun _ _ => rfl
  answers := by
    intro e w he
    cases e with
    | constant l v t => exact ⟨_, _, rfl, rfl, Nat.le_refl _, .inl rfl⟩
    | parameter l x t =>
      exact ⟨_, _, rfl, rfl, Nat.le_succ _, .inr ⟨_, rfl, Nat.le_refl _, Nat.lt_succ_self _⟩⟩
    | _ => cases he

/-- Writing zeros takes equal constants to equal ones. -/
theorem isPure_zero (n : Label) : zero.IsPure n := by
  rintro e e' r r' he h ⟨w, w₁, le, hr⟩ ⟨w', w₁', le', hr'⟩
  cases e with
  | constant l v t =>
    obtain ⟨l', rfl⟩ := h.exists_constant
    cases hr
    cases hr'
    exact .inr ⟨rfl, ⟨_, rfl, le⟩, ⟨_, rfl, le'⟩⟩
  | parameter l x t =>
    obtain ⟨l', rfl⟩ := h.exists_parameter
    cases hr
    cases hr'
    exact h
  | _ => cases he

/-- Renaming takes equal parameters to equal ones. -/
theorem isPure_rename (n : Label) : rename.IsPure n := by
  rintro e e' r r' he h ⟨w, w₁, le, hr⟩ ⟨w', w₁', le', hr'⟩
  cases e with
  | constant l v t =>
    obtain ⟨l', rfl⟩ := h.exists_constant
    cases hr
    cases hr'
    exact h
  | parameter l x t =>
    obtain ⟨l', rfl⟩ := h.exists_parameter
    cases hr
    cases hr'
    exact .inr ⟨rfl, ⟨_, rfl, le⟩, ⟨_, rfl, le'⟩⟩
  | _ => cases he

end Transformer

/-- The function that copies the cell at a new zero. -/
def Grid.copyZero : Expr :=
  .lambda 9 [row] (.call 8 grid (.method setter)
    [row, .call 7 grid (.method getter) [.constant 6 (.int 0) .i32]])

/-- The constant of the copied cell becomes a zero, and the rest of the tree is shared or rebuilt;
renaming afterwards is the same as renaming in one go. -/
theorem accept_leaves_copyFirst :
    Transformer.zero.RewritesLeaves ∧ Transformer.rename.RewritesLeaves ∧
      Transformer.zero.IsPure 6 ∧ Transformer.rename.IsPure 6 ∧
      Grid.copyFirst.Filled ∧ Grid.copyFirst.labelsBelow 6 = true ∧
      ∃ w', Transformer.zero.accept Grid.copyFirst (Work.start 6) = .ok Grid.copyZero w' ∧
        Transformer.zero.Passes [Grid.grid, Grid.row, Grid.grid, Grid.first] (Work.start 6)
          [Grid.grid, Grid.row, Grid.grid, .constant 6 (.int 0) .i32] w' ∧
        (∃ v, Transformer.zero.resultAt [0, 1] Grid.copyFirst (Work.start 6) = .ok Grid.row v) ∧
        (∃ s' v, Transformer.zero.resultAt [0, 2] Grid.copyFirst (Work.start 6) = .ok s' v ∧
          s'.same Grid.readFirst = false) ∧
        ∃ r₂ w₂ r₃ w₃, Transformer.rename.accept Grid.copyZero w' = .ok r₂ w₂ ∧
          (Transformer.zero.andThen Transformer.rename).accept Grid.copyFirst (Work.start 6) =
            .ok r₃ w₃ ∧ r₂.unlabelled = r₃.unlabelled := by
  have filled : Grid.copyFirst.Filled := by decide
  have known : Grid.copyFirst.labelsBelow (Work.start 6).nextLabel = true := by decide
  obtain ⟨r, w', haccept, hpasses, -, hpaths, hcomp⟩ :=
    accept_leaves Transformer.rewritesLeaves_zero filled known
  obtain rfl : r = Grid.copyZero := by
    cases haccept
    rfl
  obtain ⟨row', v, hrow, hrowPlace, -, -⟩ := hpaths [0, 1] Grid.row rfl
  obtain ⟨read', v', hread, hreadPlace, hiff, -⟩ := hpaths [0, 2] Grid.readFirst rfl
  cases hrowPlace
  cases hreadPlace
  refine ⟨Transformer.rewritesLeaves_zero, Transformer.rewritesLeaves_rename,
    Transformer.isPure_zero 6, Transformer.isPure_rename 6, filled, known, w', haccept, hpasses,
    ⟨v, hrow⟩, ⟨_, v', hread, ?_⟩, ?_⟩
  · rw [Bool.eq_false_iff, ne_eq, hiff]
    decide
  · exact hcomp Transformer.rename Transformer.rewritesLeaves_rename (Transformer.isPure_zero 6)
      (Transformer.isPure_rename 6)

end CanonicalAccess
