import CanonicalAccess.Proofs.Outcome

/-!
# The first fault

A complete tree is normalized exactly if the metadata leads back from each of its accessor calls,
and else the first call for which it does not is refused. First means first in the order of the
walk: an inner call before the one it is in, and a left one before a right one. The call is refused
as it stands in the tree, whatever became of its children.

`Verdict` says this of any computation that comes to some calls in order. For a walk it is read off
the faults of the calls, by which the outcome is decided.
-/

set_option autoImplicit false

namespace CanonicalAccess

/-- A refusal is due if its call is an accessor call in order as far as its shape goes, and the
answer to the question of the shape is its reason. -/
inductive Refusal.Due (provider : Provider) : Refusal → Prop where
  | unanswered {l : Label} {receiver : Expr} {m : Method} {arguments : List Expr} {a : Access}
      {name : String} {q : Query} (shape : m.access? arguments.length = some (a, name))
      (query : m.query? a name = some q) (answer : provider q = .ok .absent) :
      Due provider ⟨.call l receiver (.method m) arguments, m, .unanswered q⟩
  | notAccessor {l : Label} {receiver : Expr} {m : Method} {arguments : List Expr} {a : Access}
      {name : String} {q : Query} {p : Property}
      (shape : m.access? arguments.length = some (a, name)) (query : m.query? a name = some q)
      (answer : provider q = .ok (.property p)) (unbacked : p.accessor a.role ≠ .method m) :
      Due provider ⟨.call l receiver (.method m) arguments, m, .notAccessor p a.role⟩

/-- The metadata does not lead back from a call whose refusal is due. -/
theorem Refusal.Due.not_roundTrips {provider : Provider} {refusal : Refusal}
    (h : refusal.Due provider) : ¬ refusal.call.RoundTrips provider := by
  intro hround
  cases h with
  | unanswered shape query answer =>
    obtain ⟨q', p, query', answer', -⟩ := hround _ _ shape
    rw [query, Option.some.injEq] at query'
    subst query'
    rw [answer] at answer'
    cases answer'
  | notAccessor shape query answer unbacked =>
    obtain ⟨q', p, query', answer', backed⟩ := hround _ _ shape
    rw [query, Option.some.injEq] at query'
    subst query'
    rw [answer] at answer'
    cases answer'
    exact unbacked backed

/-- The verdict on some calls in order: all of them are settled, or the first from which the
metadata does not lead back is refused. -/
inductive Verdict (provider : Provider) {α : Type} :
    List Expr → EStateM.Result Fault Work α → Prop where
  | settled {calls : List Expr} {a : α} {w : Work} (all : ∀ c ∈ calls, c.RoundTrips provider) :
      Verdict provider calls (.ok a w)
  | refused {before after : List Expr} {refusal : Refusal} {w : Work}
      (all : ∀ c ∈ before, c.RoundTrips provider) (due : refusal.Due provider) :
      Verdict provider (before ++ refusal.call :: after) (.error (.refused refusal) w)

namespace Verdict

variable {provider : Provider} {α β : Type}

/-- Without calls there is nothing to refuse. -/
theorem nil (a : α) (w : Work) : Verdict provider [] (.ok a w) := .settled (by simp)

/-- The second of two computations comes to its calls if those of the first are all settled. -/
theorem bind {x : Transform α} {f : α → Transform β} {calls calls' : List Expr} {w : Work}
    (hx : Verdict provider calls (x w))
    (hf : ∀ a w', x w = .ok a w' → Verdict provider calls' (f a w')) :
    Verdict provider (calls ++ calls') ((x >>= f) w) := by
  simp only [Bind.bind, EStateM.bind]
  cases hrun : x w with
  | error fault w' =>
    rw [hrun] at hx
    -- The second computation never starts, and its calls come after the one at fault.
    cases hx with
    | refused all due =>
      rw [List.append_assoc, List.cons_append]
      exact .refused all due
  | ok a w' =>
    rw [hrun] at hx
    have hf := hf a w' hrun
    cases hx with
    | settled all =>
      dsimp only
      cases hrun' : f a w' with
      | ok b w'' =>
        rw [hrun'] at hf
        cases hf with
        | settled all' =>
          refine .settled ?_
          intro c hc
          exact (List.mem_append.mp hc).elim (all c) (all' c)
      | error fault w'' =>
        rw [hrun'] at hf
        cases hf with
        | refused all' due =>
          rw [← List.append_assoc]
          refine .refused ?_ due
          intro c hc
          exact (List.mem_append.mp hc).elim (all c) (all' c)

/-- Success means that the metadata leads back from every call. -/
theorem ok_iff {calls : List Expr} {result : EStateM.Result Fault Work α}
    (h : Verdict provider calls result) :
    (∃ a w, result = .ok a w) ↔ ∀ c ∈ calls, c.RoundTrips provider := by
  cases h with
  | @settled _ a w all => exact ⟨fun _ => all, fun _ => ⟨a, w, rfl⟩⟩
  | refused all due =>
    constructor
    · rintro ⟨a, w, h⟩
      cases h
    · intro hall
      exact absurd (hall _ (by simp)) due.not_roundTrips

/-- Without success the first call that is at fault is refused. -/
theorem exists_refusal {calls : List Expr} {result : EStateM.Result Fault Work α}
    (h : Verdict provider calls result) (hfault : ¬ ∀ c ∈ calls, c.RoundTrips provider) :
    ∃ before c after, calls = before ++ c :: after ∧ (∀ d ∈ before, d.RoundTrips provider) ∧
      ¬ c.RoundTrips provider ∧ ∃ refusal w, result = .error (.refused refusal) w ∧
        refusal.call = c ∧ refusal.Due provider := by
  cases h with
  | settled all => exact absurd all hfault
  | @refused before after refusal w all due =>
    exact ⟨before, refusal.call, after, rfl, all, due.not_roundTrips, refusal, w, rfl, rfl, due⟩

end Verdict

/-- A call whose method declares a value where one is written poses a question. -/
theorem Method.exists_query {m : Method} {a : Access} {name : String}
    (h : a = .writeIndexer → m.parameters ≠ []) : ∃ q, m.query? a name = some q := by
  cases hquery : m.query? a name with
  | some q => exact ⟨q, rfl⟩
  | none =>
    obtain ⟨ha, hnil⟩ := Method.query?_eq_none_iff.mp hquery
    exact absurd hnil (h ha)

/-- Where every question is answered and a value is declared, a call at fault is due to be refused.
-/
theorem Refusal.due_of_fault? {provider : Provider} (total : provider.Total) {c : Expr}
    (declares : c.DeclaresValue) {fault : Fault} (h : c.fault? provider = some fault) :
    ∃ refusal : Refusal, fault = .refused refusal ∧ refusal.call = c ∧ refusal.Due provider := by
  cases c with
  | call l receiver m arguments =>
    cases m with
    | absent | property p => cases h
    | method m =>
      cases shape : m.access? arguments.length with
      | none =>
        rw [Expr.fault?_of_unshaped shape] at h
        cases h
      | some access =>
        obtain ⟨a, name⟩ := access
        obtain ⟨q, query⟩ : ∃ q, m.query? a name = some q := by
          refine Method.exists_query ?_
          rintro rfl
          exact declares name shape
        obtain ⟨found, answer⟩ := total q
        rw [Expr.fault?_of_query shape query, answer] at h
        cases found with
        | none =>
          cases h
          exact ⟨_, rfl, rfl, .unanswered shape query answer⟩
        | some p =>
          by_cases backed : p.accessor a.role = .method m
          · have hbacking : Normalization.backing (.call l receiver (.method m) arguments) m a q
                (.property p) = .ok p := Normalization.backing_eq_ok_iff.mpr ⟨rfl, backed⟩
            simp [Member.ofProperty?, bind, Except.bind, hbacking] at h
          · simp only [Member.ofProperty?, bind, Except.bind, Normalization.backing,
              if_neg backed] at h
            cases h
            exact ⟨_, rfl, rfl, .notAccessor shape query answer backed⟩
  | _ => cases h

/-- What is decided by the faults of some calls is a verdict on them. -/
theorem Verdict.of_decidedBy {provider : Provider} (total : provider.Total) {α : Type}
    {calls : List Expr} (declares : ∀ c ∈ calls, c.DeclaresValue)
    {result : EStateM.Result Fault Work α} (h : DecidedBy provider calls result) :
    Verdict provider calls result := by
  unfold DecidedBy at h
  cases hfault : calls.findSome? fun c => c.fault? provider with
  | none =>
    rw [hfault] at h
    obtain ⟨a, w, rfl⟩ := h
    rw [List.findSome?_eq_none_iff] at hfault
    exact .settled fun c hc => Expr.fault?_eq_none_iff.mp (hfault c hc)
  | some fault =>
    rw [hfault] at h
    obtain ⟨w, rfl⟩ := h
    obtain ⟨before, c, after, rfl, hc, hbefore⟩ := List.findSome?_eq_some_iff.mp hfault
    obtain ⟨refusal, rfl, rfl, due⟩ := Refusal.due_of_fault? total (declares c (by simp)) hc
    exact .refused (fun d hd => Expr.fault?_eq_none_iff.mp (hbefore d hd)) due

/-- A visit comes to the accessor calls of a tree in order. -/
theorem Normalization.verdict_apply {provider : Provider} (total : provider.Total) {e : Expr}
    (hcomplete : e.isAbsent = false → e.complete = true) (declares : ∀ c ∈ e.nodes, c.DeclaresValue)
    (w : Work) : Verdict provider e.accessorCalls ((normalizer provider).apply e w) :=
  .of_decidedBy total (fun c hc => declares c (List.mem_of_mem_filter hc))
    (decidedBy_apply hcomplete w)

/-- Where the metadata answers every question with a property or with nothing, a complete tree whose
indexer writes have a declared value is normalized exactly if every accessor call in it round-trips,
and otherwise the first one that does not is refused, as the call that it is in the tree. -/
theorem normalize_first_fault {provider : Provider} (total : provider.Total) {t : Expr}
    (complete : t.complete = true) (declares : ∀ c ∈ t.nodes, c.DeclaresValue) (w : Work) :
    ((∃ r w', normalize provider t w = .ok r w') ↔
      ∀ c ∈ t.accessorCalls, c.RoundTrips provider) ∧
    ((¬ ∀ c ∈ t.accessorCalls, c.RoundTrips provider) →
      ∃ before c after, t.accessorCalls = before ++ c :: after ∧
        (∀ d ∈ before, d.RoundTrips provider) ∧ ¬ c.RoundTrips provider ∧
        ∃ refusal w', normalize provider t w = .error (.refused refusal) w' ∧
          refusal.call = c ∧ refusal.Due provider) := by
  have hverdict : Verdict provider t.accessorCalls (normalize provider t w) := by
    have hpresent := Expr.isAbsent_of_complete complete
    have hwalk := Normalization.verdict_apply total (fun _ => complete) declares
      { w with settled := 0 }
    rw [Transformer.apply_of_present _ hpresent] at hwalk
    rw [normalize_apply, ← List.append_nil t.accessorCalls]
    exact hwalk.bind fun result w₁ _ => .nil result _
  exact ⟨hverdict.ok_iff, hverdict.exists_refusal⟩

/-- Both calls in the function go through where the grid's cells are found, and where nothing is
found the inner one is refused. -/
theorem normalize_first_fault_copyFirst :
    Grid.provider.Total ∧ (Provider.fixed .absent .absent).Total ∧
      Grid.copyFirst.complete = true ∧ (∀ c ∈ Grid.copyFirst.nodes, c.DeclaresValue) ∧
      (∃ r w', normalize Grid.provider Grid.copyFirst (Work.start 6) = .ok r w') ∧
      ∃ refusal w', normalize (Provider.fixed .absent .absent) Grid.copyFirst (Work.start 6) =
        .error (.refused refusal) w' ∧ refusal.call = Grid.readFirst := by
  have total : Grid.provider.Total := by
    intro q
    cases q with
    | property on name => exact ⟨none, rfl⟩
    | indexer on name value index => exact ⟨some Grid.cells, rfl⟩
  have totalAbsent : (Provider.fixed .absent .absent).Total := by
    intro q
    cases q <;> exact ⟨none, rfl⟩
  have declares : ∀ c ∈ Grid.copyFirst.nodes, c.DeclaresValue := by
    simp [Grid.copyFirst, Grid.readFirst, Grid.grid, Grid.row, Grid.first, Expr.nodes,
      Expr.nodesAll, Expr.DeclaresValue, Grid.setter, Grid.getter]
  have hcalls : Grid.copyFirst.accessorCalls =
      [Grid.readFirst, .call 4 Grid.grid (.method Grid.setter) [Grid.row, Grid.readFirst]] := rfl
  refine ⟨total, totalAbsent, rfl, declares, ?_, ?_⟩
  · refine (normalize_first_fault total rfl declares (Work.start 6)).1.mpr ?_
    rw [hcalls, List.forall_mem_cons, List.forall_mem_singleton]
    constructor
    · intro a name shape
      cases shape
      exact ⟨_, Grid.cells, rfl, rfl, rfl⟩
    · intro a name shape
      cases shape
      exact ⟨_, Grid.cells, rfl, rfl, rfl⟩
  · have hfault : ¬ Grid.readFirst.RoundTrips (Provider.fixed .absent .absent) := by
      intro h
      obtain ⟨q, p, query, answer, -⟩ := h .readIndexer "Item" rfl
      cases query
      cases answer
    obtain ⟨before, c, after, hsplit, hbefore, -, refusal, w', hrun, rfl, -⟩ :=
      (normalize_first_fault totalAbsent rfl declares (Work.start 6)).2
        fun h => hfault (h Grid.readFirst (by simp [hcalls]))
    refine ⟨refusal, w', hrun, ?_⟩
    rw [hcalls] at hsplit
    cases before with
    | nil => exact (List.cons.inj hsplit).1.symm
    | cons d before =>
      rw [List.cons_append, List.cons.injEq] at hsplit
      rw [← hsplit.1] at hbefore
      exact absurd (hbefore Grid.readFirst (by simp)) hfault

end CanonicalAccess
