import CanonicalAccess.Normalization.Basic
import CanonicalAccess.Pass.Schedule
import CanonicalAccess.Sexp.OfExpr

/-!
# Passes

A pass turns a tree into a tree. Passes require others to have run before; a manager runs the
passes registered with it in such an order, each on the result of the one before, over a context
that holds the metadata and the analyses that passes publish for later ones. The first pass that
fails ends the run; what was published and recorded until then stays.

What a pass does is not said here. Its body is any computation on a tree over the context, which may
raise what it likes and read and change whatever else passes share.
-/

set_option autoImplicit false

namespace CanonicalAccess

/-- The identity of a pass; a pass that is defined anew under a name is another one. -/
abbrev PassId := Nat

/-- What passes bring with them: what they raise of their own, what they publish as analyses, and
what else they read and change. -/
structure Host where
  Raised : Type
  Analysis : Type
  State : Type

variable {H : Host}

/-! ### What passes work on -/

/-- The analyses that passes have published, by pass. -/
abbrev Analyses (H : Host) := List (PassId × H.Analysis)

namespace Analyses

/-- Publishes an analysis, in place of an earlier one of the same pass. -/
def publish (a : Analyses H) (id : PassId) (result : H.Analysis) : Analyses H :=
  (id, result) :: a.filter fun entry => entry.1 != id

def get? (a : Analyses H) (id : PassId) : Option H.Analysis := a.lookup id

/-- The analysis of a pass is what it published last, whatever other passes publish. -/
theorem get?_publish (a : Analyses H) (id other : PassId) (result : H.Analysis) :
    (a.publish id result).get? other = if other = id then some result else a.get? other := by
  have hfilter : other ≠ id → (a.filter fun entry => entry.1 != id).lookup other =
      a.lookup other := by
    intro hne
    induction a with
    | nil => rfl
    | cons entry a ih =>
      obtain ⟨key, value⟩ := entry
      by_cases hkey : key = id
      · have hother : (other == key) = false := by simpa [hkey] using hne
        rw [List.filter_cons_of_neg (by simpa using hkey), ih, List.lookup_cons, hother]
      · rw [List.filter_cons_of_pos (by simpa using hkey), List.lookup_cons, List.lookup_cons, ih]
  by_cases hother : other = id
  · simp [get?, publish, hother]
  · have hne : (other == id) = false := by simpa using hother
    rw [get?, get?, publish, List.lookup_cons, hne, if_neg hother]
    exact hfilter hother

end Analyses

/-- Why passes do not run to the end. -/
inductive PassFault (H : Host) where
  | work (fault : Fault)
  /-- A pass raises something of its own. -/
  | raised (what : H.Raised)
  /-- A pass does not say what it does. -/
  | abstract
  | unavailable (pass : String)
  | unregistered (pass required : String)
  | circular

/-- What a fault of a run says, where it has words of its own. -/
def PassFault.message? : PassFault H → Option String
  | unavailable pass => some ("Analysis " ++ pass ++ " not available")
  | unregistered pass required => some (pass ++ " requires unregistered pass " ++ required)
  | circular => some "Circular dependency detected in passes"
  | _ => none

/-- Work on a tree together with the analyses published, and with what else passes share. -/
structure PassWork (H : Host) where
  work : Work
  analyses : Analyses H
  shared : H.State

abbrev RunPass (H : Host) := EStateM (PassFault H) (PassWork H)

/-! ### Passes -/

/-- A pass. Its body makes a tree of a tree, over the metadata and all that passes share; a pass
without a body cannot even start. -/
structure Pass (H : Host) where
  id : PassId
  name : String
  body? : Option (Metadata → Expr → RunPass H Expr)
  requires : List PassId

/-- The tree that a pass makes of a tree. -/
def Pass.run (p : Pass H) (metadata : Metadata) (root : Expr) : RunPass H Expr :=
  match p.body? with
  | some body => body metadata root
  | none => throw .abstract

namespace RunPass

/-- Transformation as part of a run. -/
def lift {α : Type} (x : Transform α) : RunPass H α := fun s =>
  match x s.work with
  | .ok a w => .ok a { s with work := w }
  | .error f w => .error (.work f) { s with work := w }

def publish (p : Pass H) (result : H.Analysis) : RunPass H Unit :=
  modify fun s => { s with analyses := s.analyses.publish p.id result }

/-- The analysis of a pass, which has to be there. -/
def analysis (p : Pass H) : RunPass H H.Analysis := do
  match (← get).analyses.get? p.id with
  | some result => return result
  | none => throw (.unavailable p.name)

/-- The analysis of a pass is the one that it published, or it is not available. -/
theorem analysis_apply (p : Pass H) (s : PassWork H) :
    analysis p s = match s.analyses.get? p.id with
      | some found => .ok found s
      | none => .error (.unavailable p.name) s := by
  have hget : analysis p s = (match s.analyses.get? p.id with
      | some found => pure found
      | none => throw (.unavailable p.name) : RunPass H H.Analysis) s := rfl
  rw [hget]
  cases s.analyses.get? p.id <;> rfl

/-- Once a pass has published an analysis, that is its analysis; those of all other passes are what
they were, or are missing as they were. -/
theorem analysis_publish (p q : Pass H) (result : H.Analysis) (s : PassWork H) :
    (publish p result >>= fun _ => analysis q) s =
      if q.id = p.id then .ok result { s with analyses := s.analyses.publish p.id result }
      else match analysis q s with
        | .ok found _ => .ok found { s with analyses := s.analyses.publish p.id result }
        | .error fault _ => .error fault { s with analyses := s.analyses.publish p.id result } := by
  have hpublish : publish p result s =
      .ok () { s with analyses := s.analyses.publish p.id result } := rfl
  simp only [bind, EStateM.bind, hpublish, analysis_apply, Analyses.get?_publish]
  by_cases hid : q.id = p.id
  · simp [hid]
  · simp only [if_neg hid]
    cases s.analyses.get? q.id <;> rfl

end RunPass

/-- The pass that normalizes accessor calls, which is there from the start. -/
def Pass.normalization : Pass H where
  id := 0
  name := "AccessorNormalizationPass"
  body? := some fun metadata root => .lift (normalize metadata root)
  requires := []

/-- The passes defined so far, the latest first. -/
abbrev PassTable (H : Host) := List (Pass H)

namespace PassTable

def byId? (t : PassTable H) (id : PassId) : Option (Pass H) := t.find? fun p => p.id == id

def requires (t : PassTable H) (id : PassId) : List PassId :=
  match t.byId? id with
  | some p => p.requires
  | none => []

def name (t : PassTable H) (id : PassId) : String :=
  match t.byId? id with
  | some p => p.name
  | none => ""

end PassTable

/-- The fault of a set of passes without an order. -/
def PassFault.ofProblem (t : PassTable H) : Schedule.Problem PassId → PassFault H
  | .unregistered job required => unregistered (t.name job) (t.name required)
  | .circular => circular

/-! ### Managers -/

/-- The passes registered with a manager. -/
abbrev Manager := List (Schedule.Job PassId)

namespace Manager

/-- Registers a pass with what it requires at present; registering it again changes nothing. -/
def register (m : Manager) (p : Pass H) : Manager := Schedule.register m p.id p.requires

/-- The registered passes in the order in which they run. -/
def order (m : Manager) (t : PassTable H) : Except (Schedule.Problem PassId) (List PassId) :=
  Schedule.order m t.requires

/-- Runs one pass, on record; on request the text of the tree is recorded behind it. -/
def step (t : PassTable H) (metadata : Metadata) (dump : Bool) (root : Expr) (id : PassId) :
    RunPass H Expr := do
  match t.byId? id with
  | none => throw (.work .missing)
  | some p =>
    RunPass.lift (Transform.record (.running p.name))
    let result ← p.run metadata root
    if dump then
      let text ← RunPass.lift (Transform.ofExcept (result.serialize false))
      RunPass.lift (Transform.record (.after p.name text))
    return result

/-- Runs all registered passes in order, each on the result of the one before. Without an order
none is run. -/
def run (m : Manager) (t : PassTable H) (metadata : Metadata) (dump : Bool) (root : Expr) :
    RunPass H Expr :=
  match m.order t with
  | .error problem => throw (.ofProblem t problem)
  | .ok ids => ids.foldlM (step t metadata dump) root

end Manager

end CanonicalAccess
