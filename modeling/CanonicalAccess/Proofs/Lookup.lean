import CanonicalAccess.Proofs.Tables

/-!
# Looking members up

A look-up takes the first member that fits. In a reachable registry no other member would have
fitted as well: at most one property is the answer to a question, and at most one method of a type
has given a name and parameter types. So it does not matter to the answers in which order members
were defined.

Members are added behind those that are there, and none is ever taken away. So what was found once
is found ever after, whatever is defined or refused in between; that is so even for the first method
of a name, of which there may be several.
-/

set_option autoImplicit false

namespace CanonicalAccess

namespace Registry

/-- No look-up has a choice: one property at most is the answer to a question, and one method at
most has a signature. -/
structure Unambiguous (r : Registry) : Prop where
  property : ∀ q, ((r.propertiesOf q.subject).filter fun p => p.answers q).length ≤ 1
  method : ∀ t name parameters,
    ((r.methodsOf t).filter fun m => m.hasSignature name parameters).length ≤ 1

/-- Of members that are told apart by a feature, one at most fits where all that fit have the same.
-/
theorem length_filter_le_one {α β : Type} {f : α → β} {fits : α → Bool} {as : List α}
    (h : (as.map f).Nodup)
    (determined : ∀ a ∈ as, ∀ b ∈ as, fits a = true → fits b = true → f a = f b) :
    (as.filter fits).length ≤ 1 := by
  have hfitting : ((as.filter fits).map f).Nodup := h.sublist (List.filter_sublist.map f)
  have hequal : ∀ a ∈ as.filter fits, ∀ b ∈ as.filter fits, f a = f b := by
    intro a ha b hb
    rw [List.mem_filter] at ha hb
    exact determined a ha.1 b hb.1 ha.2 hb.2
  match hmembers : as.filter fits with
  | [] => exact Nat.zero_le 1
  | [_] => exact Nat.le_refl 1
  | a :: b :: rest =>
    rw [hmembers] at hfitting hequal
    have hab : f a = f b := hequal a (by simp) b (by simp)
    simp [hab] at hfitting

/-- In a sound registry no look-up has a choice. -/
theorem Sound.unambiguous {r : Registry} (hr : r.Sound) : r.Unambiguous where
  property := by
    intro q
    refine length_filter_le_one (hr.properties.sublist (List.filter_sublist.map _)) ?_
    intro p hp p' hp' answers answers'
    have signature := Property.signature_of_answers (mem_propertiesOf.mp hp).2 answers
    have signature' := Property.signature_of_answers (mem_propertiesOf.mp hp').2 answers'
    exact signature.trans signature'.symm
  method := by
    intro t name parameters
    refine length_filter_le_one (hr.methods.sublist (List.filter_sublist.map _)) ?_
    intro m hm m' hm' hsignature hsignature'
    simp only [Method.hasSignature, Bool.and_eq_true, beq_iff_eq] at hsignature hsignature'
    rw [Method.signature, Method.signature, (mem_methodsOf.mp hm).2, (mem_methodsOf.mp hm').2,
      hsignature.1, hsignature.2, hsignature'.1, hsignature'.2]

/-! ### The order of definition -/

/-- The same members, defined in some other order. -/
structure Reorders (r' r : Registry) : Prop where
  methods : r'.methods.Perm r.methods
  properties : r'.properties.Perm r.properties

/-- The first that fits is the same in any order if no other fits. -/
theorem find?_eq_of_perm {α : Type} {fits : α → Bool} {as bs : List α} (h : as.Perm bs)
    (hone : (bs.filter fits).length ≤ 1) : as.find? fits = bs.find? fits := by
  have hfitting : (as.filter fits).Perm (bs.filter fits) := h.filter fits
  have hequal : as.filter fits = bs.filter fits := by
    cases hbs : bs.filter fits with
    | nil =>
      rw [hbs] at hfitting
      exact hfitting.eq_nil
    | cons b rest =>
      rw [hbs, List.length_cons] at hone
      obtain rfl : rest = [] := List.length_eq_zero_iff.mp (by omega)
      rw [hbs] at hfitting
      exact List.perm_singleton.mp hfitting
  rw [← List.head?_filter, ← List.head?_filter, hequal]

namespace Unambiguous

variable {r r' : Registry}

/-- Where no look-up has a choice, the order of definition makes no difference to answers. -/
theorem answer?_eq (h : r.Unambiguous) (hr : r'.Reorders r) (q : Query) :
    r'.answer? q = r.answer? q :=
  find?_eq_of_perm (hr.properties.filter _) (h.property q)

/-- Nor does it to the method of a signature. -/
theorem method?_eq (h : r.Unambiguous) (hr : r'.Reorders r) (t : Ty) (name : String)
    (parameters : List Ty) :
    r'.method? t name (some parameters) = r.method? t name (some parameters) :=
  find?_eq_of_perm (hr.methods.filter _) (h.method t name parameters)

end Unambiguous

/-! ### Later definitions -/

variable {r r' : Registry}

/-- What is added to a registry comes behind what is there. -/
theorem Grown.exists_append (h : Grown r r') :
    ∃ ms ps, r'.methods = r.methods ++ ms ∧ r'.properties = r.properties ++ ps := by
  induction h with
  | refl => exact ⟨[], [], (List.append_nil _).symm, (List.append_nil _).symm⟩
  | tail _ growth ih =>
    obtain ⟨ms, ps, hms, hps⟩ := ih
    cases growth with
    | method m => exact ⟨ms ++ [m], ps, by rw [hms, List.append_assoc], hps⟩
    | property p => exact ⟨ms, ps ++ [p], hms, by rw [hps, List.append_assoc]⟩

/-- A property that answers a question still does when the registry has grown. -/
theorem Grown.answer?_eq_some (h : Grown r r') {q : Query} {p : Property}
    (hp : r.answer? q = some p) : r'.answer? q = some p := by
  obtain ⟨-, ps, -, hps⟩ := h.exists_append
  rw [answer?, propertiesOf] at hp ⊢
  rw [hps, List.filter_append, List.find?_append, hp, Option.some_or]

/-- A method that is found is still found when the registry has grown. -/
theorem Grown.method?_eq_some (h : Grown r r') {t : Ty} {name : String}
    {parameters : Option (List Ty)} {m : Method} (hm : r.method? t name parameters = some m) :
    r'.method? t name parameters = some m := by
  obtain ⟨ms, -, hms, -⟩ := h.exists_append
  rw [method?, methodsOf] at hm ⊢
  rw [hms, List.filter_append, List.find?_append, hm, Option.some_or]

end Registry

/-- In every reachable registry look-ups are unambiguous, and they have the same answers whatever
the order of the members. What they find they go on to find after any later steps, a method that is
looked up by its name alone included. -/
theorem lookups_unambiguous_and_kept {c : Catalogue} (reachable : c.Reachable) :
    c.registry.Unambiguous ∧
      (∀ r' : Registry, r'.Reorders c.registry →
        (∀ q, r'.answer? q = c.registry.answer? q) ∧
        ∀ t name parameters, r'.method? t name (some parameters) =
          c.registry.method? t name (some parameters)) ∧
      ∀ later : List Step,
        (∀ q p, c.registry.answer? q = some p → (c.run later).registry.answer? q = some p) ∧
        ∀ t name parameters m, c.registry.method? t name parameters = some m →
          (c.run later).registry.method? t name parameters = some m := by
  have unambiguous := reachable.sound.unambiguous
  refine ⟨unambiguous, ?_, ?_⟩
  · intro r' reorders
    exact ⟨unambiguous.answer?_eq reorders, unambiguous.method?_eq reorders⟩
  · intro later
    have grown := Catalogue.run_grown c later
    exact ⟨fun _ _ => grown.answer?_eq_some, fun _ _ _ _ => grown.method?_eq_some⟩

/-! A grid with two indexers of one name, and what comes after them: a method that bears the name of
their getters, and a property that is refused on account of its setter and leaves its getter behind.
-/

namespace Overloads

def defined : Catalogue :=
  (Catalogue.start 0).run
    [.define (.indexer "Grid" { index := [.i32], type := .f64 }),
      .define (.indexer "Grid" { index := [.i32, .i32], type := .f64 })]

def later : List Step :=
  [.define (.method "Grid" { name := "get_Item", parameters := [], returns := .i32 }),
    .define (.method "Grid" { name := "set_Rows", parameters := [.i32], returns := .void }),
    .define (.property "Grid" { name := "Rows", type := .i32 })]

end Overloads

/-- The indexer of two numbers and the first getter are found before and after more overloads. -/
theorem lookups_unambiguous_and_kept_overloads :
    ∃ p m, Overloads.defined.Reachable ∧
      Overloads.defined.registry.answer? (.indexer (.ofClass "Grid") "Item" .f64 [.i32, .i32]) =
        some p ∧
      (Overloads.defined.run Overloads.later).registry.answer?
        (.indexer (.ofClass "Grid") "Item" .f64 [.i32, .i32]) = some p ∧
      Overloads.defined.registry.method? (.ofClass "Grid") "get_Item" none = some m ∧
      (Overloads.defined.run Overloads.later).registry.method? (.ofClass "Grid") "get_Item" none =
        some m ∧
      ((Overloads.defined.run Overloads.later).registry.methodsOf (.ofClass "Grid")).length = 7 := by
  have reachable : Overloads.defined.Reachable := (Catalogue.Reachable.start 0).run _
  obtain ⟨-, -, hkept⟩ := lookups_unambiguous_and_kept reachable
  obtain ⟨hanswer, hmethod⟩ := hkept Overloads.later
  exact ⟨_, _, reachable, rfl, hanswer _ _ rfl, rfl, hmethod _ _ _ _ rfl, rfl⟩

end CanonicalAccess
