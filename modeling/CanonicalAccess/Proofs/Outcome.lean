import CanonicalAccess.Proofs.Settlement

/-!
# What decides the outcome

Whether a complete tree is normalized, and with which fault it is not, can be read off its accessor
calls without a walk: each of them has its own fault, or none, and the first fault in the order of
the walk is the outcome (`decidedBy_normalize`). What became of the parts of a call has no say in
it.

The walk itself settles one call after the other, and each of them poses its question and leaves its
record. `Course` says so of any computation that comes to some calls in order, for metadata that may
answer otherwise when it is asked again; that the first fault decides is what remains of it for a
provider, whose answers never change.

A registry always has an answer, so the fault of a call is a refusal unless the call writes an
indexer through a method that declares no parameters. There, and only there, something else than a
refusal comes out.
-/

set_option autoImplicit false

namespace CanonicalAccess

namespace Expr

/-- The fault of an accessor call: its shape poses no question, or there is no answer, or the answer
is not a property that the method backs. -/
def fault? (provider : Provider) : Expr → Option Fault
  | call l receiver (.method m) arguments =>
    match m.access? arguments.length with
    | some (a, name) =>
      match m.query? a name with
      | some q =>
        match provider q >>= Normalization.backing (call l receiver (.method m) arguments) m a q with
        | .ok _ => none
        | .error fault => some fault
      | none => some .noParameter
    | none => none
  | _ => none

end Expr

/-- The only access that may pose no question is that of writing an indexer through a method without
parameters. -/
theorem Method.query?_eq_none_iff {m : Method} {a : Access} {name : String} :
    m.query? a name = none ↔ a = .writeIndexer ∧ m.parameters = [] := by
  cases a with
  | readProperty | readIndexer | writeProperty => simp [query?]
  | writeIndexer =>
    unfold query?
    cases hlast : m.parameters.getLast? with
    | none => simpa using List.getLast?_eq_none_iff.mp hlast
    | some value =>
      have hne : m.parameters ≠ [] := by
        rintro hnil
        rw [hnil] at hlast
        cases hlast
      simp [hne]

namespace Expr

variable {provider : Provider} {l : Label} {receiver : Expr} {m : Method} {arguments : List Expr}
  {a : Access} {name : String}

/-- A call that is no accessor call is not at fault. -/
theorem fault?_of_unshaped (shape : m.access? arguments.length = none) :
    (call l receiver (.method m) arguments).fault? provider = none := by
  simp only [fault?, shape]

/-- An accessor call that poses no question lacks a parameter. -/
theorem fault?_of_no_query (shape : m.access? arguments.length = some (a, name))
    (query : m.query? a name = none) :
    (call l receiver (.method m) arguments).fault? provider = some .noParameter := by
  simp only [fault?, shape, query]

/-- An accessor call that poses a question is at fault as the answer says. -/
theorem fault?_of_query {q : Query} (shape : m.access? arguments.length = some (a, name))
    (query : m.query? a name = some q) :
    (call l receiver (.method m) arguments).fault? provider =
      match provider q >>= Normalization.backing (call l receiver (.method m) arguments) m a q with
      | .ok _ => none
      | .error fault => some fault := by
  simp only [fault?, shape, query]

/-- The metadata leads back from an accessor call exactly if it leads back to its method. -/
theorem roundTrips_call_iff (shape : m.access? arguments.length = some (a, name)) :
    (call l receiver (.method m) arguments).RoundTrips provider ↔ m.RoundTrips provider a name := by
  constructor
  · intro h
    exact h a name shape
  · intro h a' name' shape'
    rw [shape, Option.some.injEq, Prod.mk.injEq] at shape'
    obtain ⟨rfl, rfl⟩ := shape'
    exact h

/-- The calls without a fault are those from which the metadata leads back. -/
theorem fault?_eq_none_iff {c : Expr} : c.fault? provider = none ↔ c.RoundTrips provider := by
  cases c with
  | call l receiver m arguments =>
    cases m with
    | absent | property p => exact ⟨fun _ => trivial, fun _ => rfl⟩
    | method m =>
      cases shape : m.access? arguments.length with
      | none => simp [fault?_of_unshaped shape, RoundTrips, shape]
      | some access =>
        obtain ⟨a, name⟩ := access
        rw [roundTrips_call_iff shape, Method.RoundTrips]
        cases query : m.query? a name with
        | none => simp [fault?_of_no_query shape query]
        | some q =>
          simp only [fault?_of_query shape query, Option.some.injEq, exists_and_left,
            exists_eq_left']
          cases answer : provider q with
          | error fault => simp [bind, Except.bind]
          | ok found =>
            have hbacking := @Normalization.backing_eq_ok_iff
              (call l receiver (.method m) arguments) m a q found
            simp only [bind, Except.bind, Except.ok.injEq, ← hbacking]
            cases Normalization.backing (call l receiver (.method m) arguments) m a q found <;>
              simp
  | _ => exact ⟨fun _ => trivial, fun _ => rfl⟩

/-- A call that writes an indexer through a method without parameters is at fault, whatever the
metadata. -/
theorem fault?_of_not_declaresValue {c : Expr} (h : ¬ c.DeclaresValue) :
    c.fault? provider = some .noParameter := by
  cases c with
  | call l receiver m arguments =>
    cases m with
    | absent | property p => exact absurd trivial h
    | method m =>
      simp only [DeclaresValue, ne_eq, not_forall, not_not] at h
      obtain ⟨name, shape, hnil⟩ := h
      exact fault?_of_no_query shape (Method.query?_eq_none_iff.mpr ⟨rfl, hnil⟩)
  | _ => exact absurd trivial h

end Expr

/-- The question that an accessor call poses, if it poses one. -/
def Expr.question? : Expr → Option Query
  | call _ _ (.method m) arguments =>
    (m.access? arguments.length).bind fun (a, name) => m.query? a name
  | _ => none

/-- Metadata that has been asked some questions leads back from each of some calls when its turn
comes, the questions of those before it having been asked by then. -/
def Metadata.Settles (metadata : Metadata) : List Query → List Expr → Prop
  | _, [] => True
  | asked, c :: calls =>
    c.RoundTrips (metadata.answer asked) ∧ metadata.Settles (asked ++ c.question?.toList) calls

/-- Calls are settled if a first part of them is and then, with its questions asked, the rest. -/
theorem Metadata.settles_append {metadata : Metadata} {asked : List Query}
    {calls calls' : List Expr} :
    metadata.Settles asked (calls ++ calls') ↔
      metadata.Settles asked calls ∧
        metadata.Settles (asked ++ calls.filterMap Expr.question?) calls' := by
  induction calls generalizing asked with
  | nil => simp [Settles]
  | cons c calls ih =>
    have hasked : asked ++ c.question?.toList ++ calls.filterMap Expr.question? =
        asked ++ (c :: calls).filterMap Expr.question? := by
      cases hq : c.question? <;> simp [hq]
    rw [List.cons_append, Settles, Settles, ih, hasked, and_assoc]

/-- What the metadata has been asked makes no difference to a provider. -/
theorem Metadata.settles_iff_forall {provider : Provider} {asked : List Query}
    {calls : List Expr} :
    Metadata.Settles provider asked calls ↔ ∀ c ∈ calls, c.RoundTrips provider := by
  induction calls generalizing asked with
  | nil => simp [Settles]
  | cons c calls ih => rw [Settles, ih, List.forall_mem_cons]

/-- A computation that comes to some calls in order settles them one after the other, each of which
poses its question and leaves its record, and stops with the first fault. -/
inductive Course (metadata : Metadata) {α : Type} (calls : List Expr) (w : Work) :
    EStateM.Result Fault Work α → Prop where
  | done {a : α} {w' : Work} (settles : metadata.Settles w.asked calls)
      (log : w'.log = w.log ++ calls.filterMap Expr.settledEvent?)
      (asked : w'.asked = w.asked ++ calls.filterMap Expr.question?) :
      Course metadata calls w (.ok a w')
  | stopped {before after : List Expr} {c : Expr} {fault : Fault} {w' : Work}
      (split : calls = before ++ c :: after) (settles : metadata.Settles w.asked before)
      (due : c.fault? (metadata.answer (w.asked ++ before.filterMap Expr.question?)) = some fault)
      (log : w'.log = w.log ++ before.filterMap Expr.settledEvent?) :
      Course metadata calls w (.error fault w')

namespace Course

variable {metadata : Metadata} {α β : Type} {w : Work}

/-- A computation without calls stops with its answer. -/
theorem nil (a : α) (w : Work) : Course metadata [] w (.ok a w) :=
  .done trivial (List.append_nil _).symm (List.append_nil _).symm

/-- Work that comes to no call, and records and asks nothing. -/
theorem idle {a : α} {w' : Work} (log : w'.log = w.log) (asked : w'.asked = w.asked) :
    Course metadata [] w (.ok a w') :=
  .done trivial (by simp [log]) (by simp [asked])

/-- The second of two computations comes to its calls if those of the first are all settled. -/
theorem bind {x : Transform α} {f : α → Transform β} {calls calls' : List Expr}
    (hx : Course metadata calls w (x w))
    (hf : ∀ a w', x w = .ok a w' → Course metadata calls' w' (f a w')) :
    Course metadata (calls ++ calls') w ((x >>= f) w) := by
  simp only [Bind.bind, EStateM.bind]
  cases hrun : x w with
  | error fault w' =>
    rw [hrun] at hx
    -- The second computation never starts, and its calls come after the one at fault.
    cases hx with
    | @stopped before after c _ _ split settles due log =>
      have hsplit : calls ++ calls' = before ++ c :: (after ++ calls') := by
        rw [split, List.append_assoc, List.cons_append]
      exact .stopped hsplit settles due log
  | ok a w' =>
    rw [hrun] at hx
    have hrest := hf a w' hrun
    cases hx with
    | done settles log asked =>
      dsimp only
      cases hrun' : f a w' with
      | ok b w'' =>
        rw [hrun'] at hrest
        cases hrest with
        | done settles' log' asked' =>
          rw [asked] at settles' asked'
          rw [log] at log'
          refine .done (Metadata.settles_append.mpr ⟨settles, settles'⟩) ?_ ?_
          · rw [log', List.filterMap_append, List.append_assoc]
          · rw [asked', List.filterMap_append, List.append_assoc]
      | error fault w'' =>
        rw [hrun'] at hrest
        cases hrest with
        | @stopped before after c _ _ split settles' due log' =>
          rw [asked] at settles' due
          rw [log] at log'
          have hsplit : calls ++ calls' = (calls ++ before) ++ c :: after := by
            rw [split, List.append_assoc]
          refine .stopped hsplit (Metadata.settles_append.mpr ⟨settles, settles'⟩) ?_ ?_
          · rw [List.filterMap_append, ← List.append_assoc]
            exact due
          · rw [log', List.filterMap_append, List.append_assoc]

/-- Computations in order come to the calls of each in turn. -/
theorem inOrder {es : List Expr} {run : Expr → Transform α} {calls : Expr → List Expr}
    (h : ∀ e ∈ es, ∀ w, Course metadata (calls e) w (run e w)) (w : Work) :
    Course metadata (es.flatMap calls) w (Transform.inOrder (es.map run) w) := by
  induction es generalizing w with
  | nil => exact nil [] w
  | cons e es ih =>
    rw [List.forall_mem_cons] at h
    rw [List.flatMap_cons, List.map_cons, Transform.inOrder]
    refine bind (h.1 w) ?_
    intro a w' _
    have hrest := bind (f := fun as => (pure (a :: as) : Transform (List α))) (ih h.2 w')
      fun as w'' _ => nil (a :: as) w''
    rwa [List.append_nil] at hrest

end Course

namespace Normalization

variable {metadata : Metadata}

/-- Settling an accessor call comes to that call. -/
theorem course_settle {l : Label} {receiver receiver' : Expr} {m : Method}
    {arguments arguments' : List Expr} {a : Access} {name : String}
    (shape : m.access? arguments.length = some (a, name)) (w : Work) :
    Course metadata [.call l receiver (.method m) arguments] w
      (settle metadata (.call l receiver (.method m) arguments) m a name receiver' arguments'
        w) := by
  have stopped : ∀ {fault : Fault} {w' : Work}, w'.log = w.log →
      (Expr.call l receiver (.method m) arguments).fault? (metadata.answer w.asked) = some fault →
      Course metadata [.call l receiver (.method m) arguments] w
        (.error fault w' : EStateM.Result Fault Work Expr) := by
    intro fault w' log due
    exact .stopped (List.nil_append _).symm trivial (by simpa using due) (by simpa using log)
  cases query : m.query? a name with
  | none =>
    simp only [settle, query]
    exact stopped rfl (Expr.fault?_of_no_query shape query)
  | some q =>
    rw [settle_apply query]
    have hfault := @Expr.fault?_of_query (metadata.answer w.asked) l receiver m arguments a name q
      shape query
    cases hfound : metadata.answer w.asked q >>=
        backing (.call l receiver (.method m) arguments) m a q with
    | error fault => exact stopped rfl (by rw [hfault, hfound])
    | ok p =>
      have settles : metadata.Settles w.asked [.call l receiver (.method m) arguments] :=
        ⟨Expr.fault?_eq_none_iff.mp (by rw [hfault, hfound]), trivial⟩
      refine .done settles ?_ ?_
      · simp [settledWork, Expr.settledEvent?, shape]
      · simp [settledWork, Expr.question?, shape, query]

/-- The conclusion at a node comes to the node if that is an accessor call, and to no other call. -/
theorem course_conclude {e : Expr} {cs : List Expr} (hlen : cs.length = e.children.length)
    (hm : e.callsMethod = true) (w : Work) :
    Course metadata (if e.isAccessorShaped then [e] else []) w
      ((normalizer metadata).conclude e cs w) := by
  cases hshaped : e.isAccessorShaped with
  | false =>
    rw [conclude_of_not_shaped hlen hm hshaped]
    obtain ⟨r, n, hrefit, -, -⟩ := Expr.exists_refit e cs w
    rw [hrefit]
    exact .idle rfl rfl
  | true =>
    obtain ⟨l, receiver, m, as, receiver', as', a, name, rfl, rfl, hlen, shape⟩ :=
      Expr.exists_access hlen hshaped
    rw [conclude_of_access hlen shape]
    exact course_settle shape w

/-- A visit comes to the accessor calls of a tree in order. -/
theorem course_apply {e : Expr} (hcomplete : e.isAbsent = false → e.complete = true) (w : Work) :
    Course metadata e.accessorCalls w ((normalizer metadata).apply e w) := by
  induction e using Expr.children_induction generalizing w with
  | step e ih =>
    by_cases habsent : e.isAbsent = true
    · rw [Expr.eq_absent_of_isAbsent habsent]
      exact .nil Expr.absent w
    · have hpresent : e.isAbsent = false := by simpa using habsent
      obtain ⟨hk, hm, hrequired, hchildren⟩ :=
        (Expr.complete_iff_children e).mp (hcomplete hpresent)
      obtain ⟨k, hk⟩ := Option.isSome_iff_exists.mp hk
      have henter : (normalizer metadata).enter k = pure () := rfl
      rw [Transformer.apply_of_present _ hpresent, Transformer.accept_eq_conclude _ hk, henter,
        pure_bind, Transformer.visits_eq_map_apply _ hrequired,
        Expr.accessorCalls_eq_flatMap_children]
      have hvisits : ∀ c ∈ e.children, ∀ w,
          Course metadata c.accessorCalls w ((normalizer metadata).apply c w) := by
        intro c hc w
        exact ih c hc (hchildren c hc) w
      refine Course.bind (Course.inOrder hvisits w) ?_
      intro cs w' hrun
      have hlen := Transform.length_of_inOrder hrun
      rw [List.length_map] at hlen
      exact course_conclude hlen hm w'

/-- The walk of a normalization comes to the accessor calls of the tree in order. -/
theorem course_accept {t : Expr} (complete : t.complete = true) (w : Work) :
    Course metadata t.accessorCalls w ((normalizer metadata).accept t w) := by
  have hwalk := @course_apply metadata t (fun _ => complete) w
  rwa [Transformer.apply_of_present _ (Expr.isAbsent_of_complete complete)] at hwalk

end Normalization

/-- A computation that comes to some calls in order fails with the first fault among theirs, and
succeeds if none of them has one. -/
def DecidedBy (provider : Provider) {α : Type} (calls : List Expr)
    (result : EStateM.Result Fault Work α) : Prop :=
  match calls.findSome? fun c => c.fault? provider with
  | none => ∃ a w, result = .ok a w
  | some fault => ∃ w, result = .error fault w

/-- With a provider, whose answers never change, the first fault decides the course of a
computation. -/
theorem Course.decidedBy {provider : Provider} {α : Type} {calls : List Expr} {w : Work}
    {result : EStateM.Result Fault Work α} (h : Course provider calls w result) :
    DecidedBy provider calls result := by
  have hfree : ∀ {calls : List Expr}, Metadata.Settles provider w.asked calls →
      calls.findSome? (fun c => c.fault? provider) = none := by
    intro calls settles
    rw [List.findSome?_eq_none_iff]
    intro c hc
    exact Expr.fault?_eq_none_iff.mpr (Metadata.settles_iff_forall.mp settles c hc)
  unfold DecidedBy
  cases h with
  | @done a w' settles _ _ =>
    rw [hfree settles]
    exact ⟨a, w', rfl⟩
  | @stopped _ _ c fault w' split settles due _ =>
    have hfault : c.fault? provider = some fault := due
    rw [split, List.findSome?_append, hfree settles, Option.none_or, List.findSome?_cons, hfault]
    exact ⟨w', rfl⟩

namespace Normalization

variable {provider : Provider}

/-- A visit of a complete tree is decided by its accessor calls. -/
theorem decidedBy_apply {e : Expr} (hcomplete : e.isAbsent = false → e.complete = true)
    (w : Work) : DecidedBy provider e.accessorCalls ((normalizer provider).apply e w) :=
  (course_apply hcomplete w).decidedBy

/-- The outcome for a complete tree is decided by its accessor calls. -/
theorem decidedBy_normalize {t : Expr} (complete : t.complete = true) (w : Work) :
    DecidedBy provider t.accessorCalls (normalize provider t w) := by
  have hwalk := (@course_accept provider t complete { w with settled := 0 }).decidedBy
  unfold DecidedBy at hwalk ⊢
  cases hfault : t.accessorCalls.findSome? fun c => c.fault? provider with
  | none =>
    rw [hfault] at hwalk
    obtain ⟨r, w', haccept⟩ := hwalk
    exact ⟨r, _, normalize_eq_ok_iff.mpr ⟨w', haccept, rfl⟩⟩
  | some fault =>
    rw [hfault] at hwalk
    obtain ⟨w', haccept⟩ := hwalk
    exact ⟨w', normalize_eq_error_iff.mpr haccept⟩

/-- A complete tree is normalized exactly if the metadata leads back from each of its accessor
calls. -/
theorem exists_ok_iff_roundTrips {t : Expr} (complete : t.complete = true) (w : Work) :
    (∃ r w', normalize provider t w = .ok r w') ↔
      ∀ c ∈ t.accessorCalls, c.RoundTrips provider := by
  have hdecided := @decidedBy_normalize provider t complete w
  have hcalls : t.accessorCalls.findSome? (fun c => c.fault? provider) = none ↔
      ∀ c ∈ t.accessorCalls, c.RoundTrips provider := by
    simp only [List.findSome?_eq_none_iff, Expr.fault?_eq_none_iff]
  unfold DecidedBy at hdecided
  rw [← hcalls]
  cases hfault : t.accessorCalls.findSome? fun c => c.fault? provider with
  | none =>
    rw [hfault] at hdecided
    simp [hdecided]
  | some fault =>
    rw [hfault] at hdecided
    obtain ⟨w', hrun⟩ := hdecided
    simp [hrun]

end Normalization

end CanonicalAccess
