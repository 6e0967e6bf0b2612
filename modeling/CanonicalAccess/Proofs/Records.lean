import CanonicalAccess.Proofs.Outcome
import CanonicalAccess.Proofs.Soundness

/-!
# What is recorded

A normalizer counts the calls that it settles and records each of them when it is settled. So the
count is the number of its records, whatever trees it is given one after the other and whatever
becomes of each visit (`tallies_afterVisits`).

Which calls those are, and in which order, is known from the course of the walk: all accessor calls
of the tree if it is normalized, and then a record of their number follows; and those before the
first one at fault if it is not.
-/

set_option autoImplicit false

namespace CanonicalAccess

/-- Whether an event tells that a call was settled. -/
def Event.isReplaced : Event → Bool
  | replaced .. => true
  | _ => false

/-! ### The count -/

/-- From one state of the work to another as many calls were counted as were recorded, and nothing
else was recorded. -/
def Work.Tallies (w w' : Work) : Prop :=
  ∃ records : List Event, w'.log = w.log ++ records ∧ (∀ r ∈ records, r.isReplaced = true) ∧
    w'.settled = w.settled + records.length

namespace Work.Tallies

variable {w w₁ w₂ : Work}

/-- Nothing is tallied where nothing was recorded and nothing counted. -/
theorem of_eq (log : w₁.log = w.log) (settled : w₁.settled = w.settled) : w.Tallies w₁ :=
  ⟨[], by simp [log], by simp, by simp [settled]⟩

/-- What stays the same tallies. -/
theorem refl (w : Work) : w.Tallies w := of_eq rfl rfl

/-- Tallies add up. -/
theorem trans (h : w.Tallies w₁) (h' : w₁.Tallies w₂) : w.Tallies w₂ := by
  obtain ⟨records, log, replaced, settled⟩ := h
  obtain ⟨records', log', replaced', settled'⟩ := h'
  refine ⟨records ++ records', ?_, ?_, ?_⟩
  · rw [log', log, List.append_assoc]
  · intro r hr
    exact (List.mem_append.mp hr).elim (replaced r) (replaced' r)
  · rw [settled', settled, List.length_append, Nat.add_assoc]

end Work.Tallies

namespace Transform

variable {α β : Type}

/-- The work after a computation, be it carried out or not. -/
def workAfter (x : Transform α) (w : Work) : Work :=
  match x w with
  | .ok _ w' => w'
  | .error _ w' => w'

/-- A computation counts what it records. -/
def Accounts (x : Transform α) : Prop := ∀ w : Work, w.Tallies (x.workAfter w)

/-- An answer at hand records nothing and counts nothing. -/
theorem accounts_pure (a : α) : Accounts (pure a : Transform α) := fun w => .refl w

/-- Neither does a failure. -/
theorem accounts_throw (fault : Fault) : Accounts (throw fault : Transform α) := fun w => .refl w

/-- Two steps count what they record if each does. -/
theorem accounts_bind {x : Transform α} {f : α → Transform β} (hx : x.Accounts)
    (hf : ∀ a, (f a).Accounts) : (x >>= f).Accounts := by
  intro w
  have hfirst := hx w
  unfold workAfter at hfirst ⊢
  simp only [Bind.bind, EStateM.bind]
  cases hrun : x w with
  | error fault w' =>
    rw [hrun] at hfirst
    exact hfirst
  | ok a w' =>
    rw [hrun] at hfirst
    exact hfirst.trans (hf a w')

/-- Computations in order count what they record if each does. -/
theorem accounts_inOrder {xs : List (Transform α)} (h : ∀ x ∈ xs, Accounts x) :
    (inOrder xs).Accounts := by
  induction xs with
  | nil => exact accounts_pure []
  | cons x xs ih =>
    rw [List.forall_mem_cons] at h
    exact accounts_bind h.1 fun a => accounts_bind (ih h.2) fun as => accounts_pure (a :: as)

end Transform

namespace Normalization

open Transform (Accounts)

variable {metadata : Metadata}

/-- An update records nothing and counts nothing. -/
theorem accounts_update (e : Expr) (operands items : List Expr) :
    Accounts (e.update operands items) := by
  intro w
  obtain ⟨r, n, hupdate, -, -⟩ := e.exists_update operands items w
  rw [Transform.workAfter, hupdate]
  exact .of_eq rfl rfl

/-- A call that is settled is recorded once and counted once. -/
theorem accounts_settle (call : Expr) (m : Method) (a : Access) (name : String) (receiver : Expr)
    (arguments : List Expr) :
    Accounts (settle metadata call m a name receiver arguments) := by
  intro w
  cases query : m.query? a name with
  | none =>
    simp only [Transform.workAfter, settle, query]
    exact .refl w
  | some q =>
    rw [Transform.workAfter, settle_apply query]
    cases metadata.answer w.asked q >>= backing call m a q with
    | error fault => exact .of_eq rfl rfl
    | ok p => exact ⟨[.replaced m.name a.resultKind], rfl, by simp [Event.isReplaced], rfl⟩

/-- At every node the normalizer counts what it records. -/
theorem accounts_conclude (e : Expr) (cs : List Expr) :
    Accounts ((normalizer metadata).conclude e cs) := by
  unfold Transformer.conclude
  split
  · exact Transform.accounts_pure _
  · exact Transform.accounts_pure _
  · simp only [normalizer, onCall]
    split
    · split
      · exact accounts_settle _ _ _ _ _ _
      · exact accounts_update _ _ _
    · exact Transform.accounts_throw _
  · exact accounts_update _ _ _
  · unfold Expr.refit
    split <;> exact accounts_update _ _ _

/-- Where nothing stands, nothing is recorded; elsewhere a visit counts what it records. -/
theorem accounts_apply {e : Expr} (h : Accounts ((normalizer metadata).accept e)) :
    Accounts ((normalizer metadata).apply e) := by
  unfold Transformer.apply
  split
  · exact Transform.accounts_pure _
  · exact h

/-- The visits of children count what they record. -/
theorem accounts_visits {e : Expr}
    (h : ∀ c ∈ e.children, Accounts ((normalizer metadata).accept c)) :
    ∀ x ∈ (normalizer metadata).visits e, Accounts x := by
  unfold Transformer.visits
  cases hchildren : e.children with
  | nil => simp
  | cons c cs =>
    rw [hchildren, List.forall_mem_cons] at h
    intro x hx
    rcases List.mem_cons.mp hx with rfl | hx
    · split
      · exact accounts_apply h.1
      · exact h.1
    · obtain ⟨c', hc', rfl⟩ := List.mem_map.mp hx
      exact h.2 c' hc'

/-- A visit counts what it records, also of a tree that cannot be walked to its end. -/
theorem accounts_accept (e : Expr) : Accounts ((normalizer metadata).accept e) := by
  induction e using Expr.children_induction with
  | step e ih =>
    cases hk : e.kind? with
    | none =>
      cases e with
      | absent | bare l => exact Transform.accounts_throw _
      | _ => cases hk
    | some k =>
      rw [Transformer.accept_eq_conclude _ hk]
      refine Transform.accounts_bind (Transform.accounts_pure ()) fun _ => ?_
      exact Transform.accounts_bind (Transform.accounts_inOrder (accounts_visits ih))
        fun cs => accounts_conclude e cs

/-- The work after trees were given to one normalizer, one after the other, whatever became of each.
-/
def afterVisits (metadata : Metadata) : List Expr → Work → Work
  | [], w => w
  | t :: trees, w => afterVisits metadata trees (((normalizer metadata).apply t).workAfter w)

/-- The count of a normalizer is the number of its records. -/
theorem tallies_afterVisits (trees : List Expr) (w : Work) :
    w.Tallies (afterVisits metadata trees w) := by
  induction trees generalizing w with
  | nil => exact .refl w
  | cons t trees ih => exact (accounts_apply (accounts_accept t) w).trans (ih _)

end Normalization

/-! ### The records -/

/-- The word for what a call to a getter or a setter became: a getter without arguments became a
member access, one with arguments an index, and a setter an assignment. -/
def Method.becomes (m : Method) (arguments : Nat) : String :=
  match afterMarker? Role.getter.marker m.name, arguments with
  | some _, 0 => "MemberAccessIR"
  | some _, _ + 1 => "IndexIR"
  | none, _ => "AssignIR"

/-- The word is that for the node that takes the place of a call with its shape. -/
theorem Method.nodeName_resultKind {m : Method} {n : Nat} {a : Access} {name : String}
    (shape : m.access? n = some (a, name)) : a.resultKind.nodeName = m.becomes n := by
  obtain ⟨hclaim, hrole⟩ := access?_eq_some_iff.mp shape
  unfold claim? at hclaim
  unfold becomes
  by_cases hspecial : m.special = true
  · rw [if_pos hspecial] at hclaim
    cases hgetter : afterMarker? Role.getter.marker m.name with
    | some accessed =>
      rw [hgetter] at hclaim
      cases a <;> cases n <;> first | rfl | cases hrole | cases hclaim
    | none =>
      rw [hgetter] at hclaim
      cases a <;> first | rfl | simp [Access.role] at hclaim
  · rw [if_neg hspecial] at hclaim
    cases hclaim

namespace Expr

/-- The line that tells of a call to a getter or a setter. -/
def settledLine : Expr → String
  | call _ _ (.method m) arguments =>
    "Rewrote " ++ m.name ++ " call to " ++ m.becomes arguments.length
  | _ => ""

/-- The record of an accessor call has its line. -/
theorem message_settledEvent? {c : Expr} (h : c.isAccessorShaped = true) :
    c.settledEvent?.map Event.message = some c.settledLine := by
  obtain ⟨l, receiver, m, arguments, -, -, a, name, rfl, -, -, shape⟩ := exists_access rfl h
  have hevent : (call l receiver (.method m) arguments).settledEvent? =
      some (.replaced m.name a.resultKind) := by
    simp only [settledEvent?, shape, Option.map_some]
  have hmessage : (Event.replaced m.name a.resultKind).message =
      "Rewrote " ++ m.name ++ " call to " ++ a.resultKind.nodeName := rfl
  rw [hevent, Option.map_some, hmessage, settledLine, Method.nodeName_resultKind shape]

end Expr

/-- Normalization of a complete tree records each accessor call of it, in the order of the walk and
with the line that says what it became, and then their number. If it fails, then at the first call
at fault, given what was asked before, and it has recorded the calls before that one and nothing
else. The count of a normalizer that is given any trees one after the other is the number of its
records, whatever becomes of each. -/
theorem log_of_normalize {metadata : Metadata} {t : Expr} (complete : t.complete = true)
    (w : Work) :
    (∀ c ∈ t.accessorCalls, c.settledEvent?.map Event.message = some c.settledLine) ∧
      (∀ r w', normalize metadata t w = .ok r w' →
        w'.log = w.log ++ t.accessorCalls.filterMap Expr.settledEvent? ++
          [.normalized t.accessorCalls.length]) ∧
      (∀ fault w', normalize metadata t w = .error fault w' →
        ∃ before c after, t.accessorCalls = before ++ c :: after ∧
          metadata.Settles w.asked before ∧
          c.fault? (metadata.answer (w.asked ++ before.filterMap Expr.question?)) = some fault ∧
          w'.log = w.log ++ before.filterMap Expr.settledEvent?) ∧
      ∀ trees, w.Tallies (Normalization.afterVisits metadata trees w) := by
  have hcourse := @Normalization.course_accept metadata t complete { w with settled := 0 }
  refine ⟨?_, ?_, ?_, ?_⟩
  · intro c hc
    exact Expr.message_settledEvent? (List.mem_filter.mp hc).2
  · intro r w' h
    obtain ⟨w₁, haccept, rfl⟩ := normalize_eq_ok_iff.mp h
    have hcount := Normalization.settled_of_visit (Transformer.visit_of_accept haccept).2
    rw [haccept] at hcourse
    cases hcourse with
    | done _ log _ =>
      dsimp only at log hcount ⊢
      rw [log, hcount, Nat.zero_add]
  · intro fault w' h
    rw [normalize_eq_error_iff.mp h] at hcourse
    cases hcourse with
    | stopped split settles due log => exact ⟨_, _, _, split, settles, due, log⟩
  · exact fun trees => Normalization.tallies_afterVisits trees w

/-- Metadata that answers the first question only. -/
def Grid.answeringOnce : Metadata :=
  ⟨fun asked => if asked.isEmpty then Grid.provider else .fixed .absent .absent⟩

/-- Where only one question is answered, the first cell is read, and the call that would write it is
at fault. The same normalizer then refuses to read another one, and has counted one call. -/
theorem log_of_normalize_copyFirst :
    Grid.copyFirst.complete = true ∧
      (∃ r w', normalize Grid.provider Grid.copyFirst (Work.start 6) = .ok r w' ∧
        w'.log = [.replaced "get_Item" .index, .replaced "set_Item" .assign, .normalized 2]) ∧
      (∃ fault w', normalize Grid.answeringOnce Grid.copyFirst (Work.start 6) = .error fault w' ∧
        w'.log = [.replaced "get_Item" .index] ∧
        ∃ before c after, Grid.copyFirst.accessorCalls = before ++ c :: after ∧
          w'.log = before.filterMap Expr.settledEvent?) ∧
      (Work.start 6).Tallies (Normalization.afterVisits Grid.answeringOnce
        [Grid.copyFirst, Grid.readFirst] (Work.start 6)) ∧
      (Normalization.afterVisits Grid.answeringOnce [Grid.copyFirst, Grid.readFirst]
        (Work.start 6)).settled = 1 := by
  have complete : Grid.copyFirst.complete = true := by decide
  obtain ⟨-, hsuccess, -, -⟩ :=
    @log_of_normalize Grid.provider Grid.copyFirst complete (Work.start 6)
  obtain ⟨-, -, hfailure, htallies⟩ :=
    @log_of_normalize Grid.answeringOnce Grid.copyFirst complete (Work.start 6)
  obtain ⟨before, c, after, split, -, -, log⟩ := hfailure _ _ rfl
  exact ⟨complete, ⟨_, _, Grid.normalize_copyFirst, hsuccess _ _ Grid.normalize_copyFirst⟩,
    ⟨_, _, rfl, rfl, before, c, after, split, log⟩, htallies _, rfl⟩

end CanonicalAccess
