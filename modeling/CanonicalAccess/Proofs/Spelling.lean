import CanonicalAccess.Proofs.Equality
import CanonicalAccess.Sexp.OfSkeleton

/-!
# What equal expressions are written as

Equal expressions differ in nothing that is written but their payloads: equal payloads may be
spelled in several ways, as truth value, integer or double, or with entries in another order. Two
equal expressions are written alike exactly if their payloads are spelled alike
(`toSexp_eq_iff_of_equal`), which payloads without truth values, doubles and dictionaries always
are.
-/

set_option autoImplicit false

namespace CanonicalAccess

/-! ### Attempts in step -/

/-- Two attempts go in step: they fail for the same reason, or both succeed and the results are the
same exactly if a statement holds. -/
inductive InStep {α : Type} (p : Prop) : Except Fault α → Except Fault α → Prop where
  | fail (f : Fault) : InStep p (.error f) (.error f)
  | succeed {s s' : α} (agree : s = s' ↔ p) : InStep p (.ok s) (.ok s')

namespace InStep

variable {α β : Type} {p q : Prop} {x y : Except Fault α}

/-- Attempts in step go on in step if what follows does. -/
theorem bind {f g : α → Except Fault β} (h : InStep p x y)
    (hnext : ∀ s s', (s = s' ↔ p) → InStep q (f s) (g s')) : InStep q (x >>= f) (y >>= g) := by
  cases h with
  | fail fault => exact .fail fault
  | succeed agree => exact hnext _ _ agree

/-- Attempts in step are equal exactly if they fail or the statement holds. -/
theorem eq_iff (h : InStep p x y) : x = y ↔ (∃ f, x = .error f) ∨ p := by
  cases h with
  | fail fault => simp
  | succeed agree => simp [agree]

/-- Of two attempts in step, both succeed or neither does. -/
theorem exists_ok_iff (h : InStep p x y) : (∃ s, x = .ok s) ↔ ∃ s, y = .ok s := by
  cases h with
  | fail fault => simp
  | succeed agree => simp

end InStep

namespace Expr

/-! ### Payloads of a tree -/

/-- The payloads of the constants of a tree outside parameter lists, in order. -/
def payloads (e : Expr) : List Value := e.nodes.flatMap ownPayload

/-- How the payloads of a tree are written. -/
def spelling (e : Expr) : List Sexp := e.payloads.map Sexp.ofValue

/-- The payloads of a tree are those of its children and then its own. -/
theorem payloads_eq_flatMap_children (e : Expr) :
    e.payloads = e.children.flatMap payloads ++ e.ownPayload := by
  unfold payloads
  rw [nodes_eq_flatMap_children, List.flatMap_append, List.flatMap_assoc]
  cases e <;> simp [isAbsent, ownPayload]

/-- The spelling of a tree is that of its children and then its own. -/
theorem spelling_eq_flatMap_children (e : Expr) :
    e.spelling = e.children.flatMap spelling ++ e.ownPayload.map Sexp.ofValue := by
  unfold spelling
  rw [payloads_eq_flatMap_children, List.map_append, List.map_flatMap]

variable {payload : Value → Value → Bool}

/-- The children of expressions that are alike are alike. -/
theorem forall₂_children_of_alike {a b : Expr} (h : alike payload a b = true) :
    List.Forall₂ (fun a b => alike payload a b = true) a.children b.children := by
  obtain ⟨hframe, -, hparts⟩ := alike_iff.mp h
  cases a with
  | lambda l ps x =>
    cases b with
    | lambda l' qs y => exact .cons (List.forall₂_cons.mp hparts).1 .nil
    | _ => cases hframe
  | _ =>
    cases b with
    | lambda l' qs y => cases hframe
    | _ => exact hparts

/-- The payloads of expressions that are alike are, one by one. -/
theorem forall₂_payloads_of_alike {a b : Expr} (h : alike payload a b = true) :
    List.Forall₂ (fun v w => payload v w = true) a.payloads b.payloads := by
  induction a using children_induction generalizing b with
  | step a ih =>
    obtain ⟨-, hpayload, -⟩ := alike_iff.mp h
    rw [payloads_eq_flatMap_children a, payloads_eq_flatMap_children b]
    have hchildren := forall₂_imp_of_mem ih (forall₂_children_of_alike h)
    exact List.rel_append (List.rel_flatMap hchildren fun _ _ h => h) hpayload

/-- Expressions have one spelling. -/
def SpelledAlike (a b : Expr) : Prop := a.spelling = b.spelling

/-- Lists that are alike are spelled alike exactly if their expressions are, one by one. -/
theorem flatMap_spelling_eq_iff {as bs : List Expr}
    (h : List.Forall₂ (fun a b => alike payload a b = true) as bs) :
    as.flatMap spelling = bs.flatMap spelling ↔ List.Forall₂ SpelledAlike as bs := by
  induction h with
  | nil => simp
  | cons ha _ ih =>
    have hlength := (forall₂_payloads_of_alike ha).length_eq
    rw [List.flatMap_cons, List.flatMap_cons, List.forall₂_cons, ← ih]
    constructor
    · intro heq
      exact List.append_inj heq (by simpa [spelling] using hlength)
    · rintro ⟨heq, hrest⟩
      rw [heq, hrest]

/-- Alike expressions have one spelling if their payloads are written alike and their children have
one spelling. -/
theorem spelledAlike_iff {a b : Expr} (h : alike payload a b = true) : a.SpelledAlike b ↔
    List.Forall₂ SpelledAlike a.children b.children ∧
      a.ownPayload.map Sexp.ofValue = b.ownPayload.map Sexp.ofValue := by
  obtain ⟨-, hpayload, -⟩ := alike_iff.mp h
  rw [← flatMap_spelling_eq_iff (forall₂_children_of_alike h)]
  unfold SpelledAlike
  rw [spelling_eq_flatMap_children a, spelling_eq_flatMap_children b]
  constructor
  · intro heq
    exact List.append_inj' heq (by simpa using hpayload.length_eq)
  · rintro ⟨hchildren, hown⟩
    rw [hchildren, hown]

/-- Declarations that are alike have the same names, or fail alike. -/
theorem parameterNames_eq_of_alikeAll {ps qs : List Expr} (h : alikeAll payload ps qs = true) :
    parameterNames ps = parameterNames qs := by
  induction ps generalizing qs with
  | nil => cases qs <;> simp_all [alikeAll]
  | cons p ps ih =>
    cases qs with
    | nil => cases h
    | cons q qs =>
      rw [alikeAll, Bool.and_eq_true] at h
      have hname : parameterName p = parameterName q := by
        obtain ⟨hp, -⟩ := h
        cases p <;> cases q <;> simp_all [alike, parameterName]
      rw [parameterNames, parameterNames, hname, ih h.2]

/-- Forms of expressions of the same type go in step with their elements. -/
theorem formOf_inStep {types : Bool} {a b : Expr} {p : Prop} {items items' : List Sexp}
    (htype : a.type = b.type) (hitems : items = items' ↔ p) :
    InStep p (formOf types a items) (formOf types b items') := by
  unfold formOf
  cases types with
  | false => exact .succeed (by simp [hitems])
  | true =>
    rw [← htype]
    cases a.type with
    | error f => exact .fail f
    | ok t => exact .succeed (by simp [hitems])

/-- Lists go in step if their expressions do. -/
theorem toSexps_inStep {types : Bool} {as bs : List Expr}
    (h : List.Forall₂
      (fun a b => InStep (a.SpelledAlike b) (a.toSexp types) (b.toSexp types)) as bs) :
    InStep (List.Forall₂ SpelledAlike as bs) (toSexps types as) (toSexps types bs) := by
  induction h with
  | nil => exact .succeed (by simp)
  | cons ha _ ih =>
    refine ha.bind fun s s' hs => ih.bind fun ss ss' hss => .succeed ?_
    rw [List.cons.injEq, hs, hss, List.forall₂_cons]

/-- Expressions that are alike are written in step: only the spelling of payloads can differ. -/
theorem toSexp_inStep (types : Bool) {a b : Expr} (h : alike payload a b = true) :
    InStep (a.SpelledAlike b) (a.toSexp types) (b.toSexp types) := by
  induction a using children_induction generalizing b with
  | step a ih =>
    obtain ⟨hframe, -, -⟩ := alike_iff.mp h
    have htype := type_eq_of_alike h
    have hchildren := forall₂_imp_of_mem ih (forall₂_children_of_alike h)
    rw [spelledAlike_iff h]
    cases a with
    | absent =>
      cases b with
      | absent => exact .succeed (by simp [children, operands, items])
      | _ => cases hframe
    | constant l v t =>
      cases b with
      | constant l' v' t' =>
        simp only [frame, constant.injEq] at hframe
        exact .succeed (by simp [children, operands, items, ownPayload, hframe])
      | _ => cases hframe
    | parameter l n t =>
      cases b with
      | parameter l' n' t' =>
        simp only [frame, parameter.injEq] at hframe
        exact formOf_inStep htype (by simp [children, operands, items, ownPayload, hframe])
      | _ => cases hframe
    | bare l =>
      cases b with
      | bare l' => exact .succeed (by simp [children, operands, items, ownPayload])
      | _ => cases hframe
    | member l r p =>
      cases b with
      | member l' r' p' =>
        simp only [frame, member.injEq, children_member, List.forall₂_cons] at hframe hchildren ⊢
        refine hchildren.1.bind fun s s' hs => formOf_inStep htype ?_
        simp [hs, hframe, ownPayload]
      | _ => cases hframe
    | unary l o x t =>
      cases b with
      | unary l' o' x' t' =>
        simp only [frame, unary.injEq, children_unary, List.forall₂_cons] at hframe hchildren ⊢
        refine hchildren.1.bind fun s s' hs => formOf_inStep htype ?_
        simp [hs, hframe, ownPayload]
      | _ => cases hframe
    | index l r p as =>
      cases b with
      | index l' r' p' as' =>
        simp only [frame, index.injEq, children_index, List.forall₂_cons] at hframe hchildren ⊢
        refine hchildren.1.bind fun s s' hs => (toSexps_inStep hchildren.2).bind fun ss ss' hss =>
          formOf_inStep htype ?_
        simp [hs, hss, hframe, ownPayload]
      | _ => cases hframe
    | call l r m as =>
      cases b with
      | call l' r' m' as' =>
        simp only [frame, call.injEq, children_call, List.forall₂_cons] at hframe hchildren ⊢
        refine hchildren.1.bind fun s s' hs => (toSexps_inStep hchildren.2).bind fun ss ss' hss =>
          formOf_inStep htype ?_
        simp [hs, hss, hframe, ownPayload]
      | _ => cases hframe
    | assign l x y =>
      cases b with
      | assign l' x' y' =>
        simp only [children_assign, List.forall₂_cons] at hchildren ⊢
        refine hchildren.1.bind fun s s' hs => hchildren.2.1.bind fun u u' hu =>
          formOf_inStep htype ?_
        simp [hs, hu, ownPayload]
      | _ => cases hframe
    | binary l o x y t =>
      cases b with
      | binary l' o' x' y' t' =>
        simp only [frame, binary.injEq, children_binary, List.forall₂_cons] at hframe hchildren ⊢
        refine hchildren.1.bind fun s s' hs => hchildren.2.1.bind fun u u' hu =>
          formOf_inStep htype ?_
        simp [hs, hu, hframe, ownPayload]
      | _ => cases hframe
    | conditional l c x y =>
      cases b with
      | conditional l' c' x' y' =>
        simp only [children_conditional, List.forall₂_cons] at hchildren ⊢
        refine hchildren.1.bind fun s s' hs => hchildren.2.1.bind fun u u' hu =>
          hchildren.2.2.1.bind fun v v' hv => formOf_inStep htype ?_
        simp [hs, hu, hv, ownPayload]
      | _ => cases hframe
    | lambda l ps x =>
      cases b with
      | lambda l' qs y =>
        rw [alike, Bool.and_eq_true] at h
        simp only [children_lambda, List.forall₂_cons] at hchildren ⊢
        rw [toSexp, toSexp, ← parameterNames_eq_of_alikeAll h.1]
        cases parameterNames ps with
        | error f => exact .fail f
        | ok names =>
          refine hchildren.1.bind fun s s' hs => formOf_inStep htype ?_
          simp [hs, ownPayload]
      | _ => cases hframe

/-! ### Types are not shown -/

/-- The expressions declared at a node: the parameters of a lambda. -/
def declarations : Expr → List Expr
  | lambda _ ps _ => ps
  | _ => []

/-- Nothing but parameters is declared anywhere in a tree. -/
def Declared (e : Expr) : Prop := ∀ n ∈ e.nodes, ∀ p ∈ n.declarations, p.declaredName?.isSome = true

instance (e : Expr) : Decidable e.Declared :=
  inferInstanceAs (Decidable (∀ n ∈ e.nodes, ∀ p ∈ n.declarations, p.declaredName?.isSome = true))

/-- A tree declares nothing but parameters exactly if its children do and its root does. -/
theorem declared_iff_children {e : Expr} : e.Declared ↔
    (∀ c ∈ e.children, c.Declared) ∧ ∀ p ∈ e.declarations, p.declaredName?.isSome = true := by
  constructor
  · intro h
    refine ⟨fun c hc n hn => h n (mem_nodes_of_mem_children hc hn), fun p hp => ?_⟩
    have hpresent : e.isAbsent = false := by cases e <;> first | rfl | cases hp
    exact h e (self_mem_nodes hpresent) p hp
  · rintro ⟨hchildren, hroot⟩ n hn
    rcases (mem_nodes_iff n e).mp hn with ⟨c, hc, hn⟩ | ⟨-, rfl⟩
    · exact hchildren c hc n hn
    · exact hroot

/-- Declared parameters have names. -/
theorem parameterNames_eq {ps : List Expr} (h : ∀ p ∈ ps, p.declaredName?.isSome = true) :
    parameterNames ps = .ok ((ps.map declaredName?).map Sexp.ofName?) := by
  induction ps with
  | nil => rfl
  | cons p ps ih =>
    rw [List.forall_mem_cons] at h
    cases p with
    | parameter l n t =>
      rw [parameterNames, ih h.2]
      rfl
    | _ => cases h.1

/-- A list is written as its skeletons are if each of its expressions is. -/
theorem toSexps_false {es : List Expr}
    (h : ∀ e ∈ es, e.toSexp false = .ok e.skeleton.toSexp) :
    toSexps false es = .ok (Skeleton.toSexps (skeletons es)) := by
  induction es with
  | nil => rfl
  | cons e es ih =>
    rw [List.forall_mem_cons] at h
    rw [toSexps, h.1, ih h.2]
    rfl

/-- A member is written by its name, which may be missing. -/
theorem ofMember_eq (m : Member) : Sexp.ofMember m = .ofName? m.name? := by
  cases m <;> rfl

/-- Without types, an expression is written as its visible part is. -/
theorem toSexp_false {e : Expr} (h : e.Declared) : e.toSexp false = .ok e.skeleton.toSexp := by
  induction e with
  | absent | constant _ _ _ | parameter _ _ _ | bare _ => rfl
  | member l r p ih =>
    obtain ⟨hchildren, -⟩ := declared_iff_children.mp h
    rw [toSexp, ih (hchildren r (by simp)), ofMember_eq]
    rfl
  | index l r p as ihr ihas | call l r p as ihr ihas =>
    obtain ⟨hchildren, -⟩ := declared_iff_children.mp h
    have has := toSexps_false fun a ha => ihas a ha (hchildren a (by simp [ha]))
    rw [toSexp, ihr (hchildren r (by simp)), has, ofMember_eq]
    rfl
  | assign l x y ihx ihy | binary l o x y t ihx ihy =>
    obtain ⟨hchildren, -⟩ := declared_iff_children.mp h
    rw [toSexp, ihx (hchildren x (by simp)), ihy (hchildren y (by simp))]
    rfl
  | unary l o x t ih =>
    obtain ⟨hchildren, -⟩ := declared_iff_children.mp h
    rw [toSexp, ih (hchildren x (by simp))]
    rfl
  | conditional l c x y ihc ihx ihy =>
    obtain ⟨hchildren, -⟩ := declared_iff_children.mp h
    rw [toSexp, ihc (hchildren c (by simp)), ihx (hchildren x (by simp)),
      ihy (hchildren y (by simp))]
    rfl
  | lambda l ps b _ ih =>
    obtain ⟨hchildren, hparameters⟩ := declared_iff_children.mp h
    have hnames : parameterNames ps = _ := parameterNames_eq hparameters
    rw [toSexp, hnames, ih (hchildren b (by simp))]
    rfl

/-- Without types such a tree has the text of its skeleton, whoever writes it. -/
theorem serializeWith_false {e : Expr} (h : e.Declared) (write : Sexp → String) :
    e.serializeWith write false = .ok (write e.skeleton.toSexp) := by
  rw [serializeWith, toSexp_false h]
  rfl

/-- Without types such a tree is laid out as its skeleton is. -/
theorem serialize_false {e : Expr} (h : e.Declared) :
    e.serialize false = .ok e.skeleton.toSexp.pretty := serializeWith_false h Sexp.pretty

end Expr

/-! ### Payloads with one spelling -/

namespace Value

/-- A payload without truth values, doubles and dictionaries. -/
inductive Plain : Value → Prop where
  | null : Plain .null
  | int (n : Int) : Plain (.int n)
  | str (s : String) : Plain (.str s)
  | bytes (bs : List UInt8) : Plain (.bytes bs)
  | list {items : List Value} (plain : ∀ v ∈ items, Plain v) : Plain (.list items)
  | tuple {items : List Value} (plain : ∀ v ∈ items, Plain v) : Plain (.tuple items)

/-- Lists that agree in what is plain are equal if one of them is. -/
theorem eq_of_forall₂ {vs ws : List Value} (h : List.Forall₂ (fun v w => w.Plain → v = w) vs ws)
    (plain : ∀ w ∈ ws, w.Plain) : vs = ws := by
  induction h with
  | nil => rfl
  | cons hv _ ih =>
    rw [List.forall_mem_cons] at plain
    rw [hv plain.1, ih plain.2]

/-- Equal payloads of the plain kinds are the same. -/
theorem Same.eq_of_plain {v w : Value} (h : v.Same w) (hv : v.Plain) (hw : w.Plain) : v = w := by
  induction hv generalizing w with
  | list _ ih =>
    cases same_iff.mp h with
    | atom hatomic _ => cases hatomic
    | list items =>
      cases hw with
      | list plain => rw [eq_of_forall₂ (forall₂_imp_of_mem ih items) plain]
  | tuple _ ih =>
    cases same_iff.mp h with
    | atom hatomic _ => cases hatomic
    | tuple items =>
      cases hw with
      | tuple plain => rw [eq_of_forall₂ (forall₂_imp_of_mem ih items) plain]
  | _ =>
    cases same_iff.mp h with
    | atom _ hagree => cases hw <;> simp_all [atom?, Quantity.exactValue]

end Value

/-- Equal expressions are spelled alike if their payloads are plain. -/
theorem Expr.spelledAlike_of_plain {a b : Expr} (h : a.equal b = true)
    (plain : ∀ v ∈ a.payloads ++ b.payloads, v.Plain) : a.SpelledAlike b := by
  rw [List.forall_mem_append] at plain
  have hpayloads : List.Forall₂ (fun v w => w.Plain → v = w) a.payloads b.payloads :=
    forall₂_imp_of_mem (fun v hv w hsame hw => Value.Same.eq_of_plain hsame (plain.1 v hv) hw)
      (forall₂_payloads_of_alike h)
  unfold Expr.SpelledAlike Expr.spelling
  rw [Value.eq_of_forall₂ hpayloads plain.2]

/-- Equal expressions are written as the same S-expression exactly if both fail to be written, for
the same reason, or their payloads are spelled alike; then they have the same text as well. Payloads
without truth values, doubles and dictionaries are spelled alike, and without types nothing fails if
only parameters are declared. -/
theorem toSexp_eq_iff_of_equal {a b : Expr} (h : a.equal b = true) (types : Bool) :
    (a.toSexp types = b.toSexp types ↔ (∃ f, a.toSexp types = .error f) ∨ a.SpelledAlike b) ∧
      ((∃ s, a.toSexp types = .ok s) ↔ ∃ s, b.toSexp types = .ok s) ∧
      (a.SpelledAlike b → a.serialize types = b.serialize types) ∧
      ((∀ v ∈ a.payloads ++ b.payloads, v.Plain) → a.SpelledAlike b) ∧
      (a.Declared → ∃ s, a.toSexp false = .ok s) := by
  have hstep := Expr.toSexp_inStep types h
  refine ⟨hstep.eq_iff, hstep.exists_ok_iff, fun hspelled => ?_, Expr.spelledAlike_of_plain h,
    fun hdeclared => ⟨_, Expr.toSexp_false hdeclared⟩⟩
  unfold Expr.serialize
  rw [hstep.eq_iff.mpr (.inr hspelled)]

namespace Sample

/-- A constant for a truth value, taken for an integer. -/
def truth : Expr := .constant 1 (.bool true) .i32

/-- A constant for the integer that the truth value equals. -/
def one : Expr := .constant 2 (.int 1) .i32

/-- A function that appends a tuple to its argument. -/
def append : Expr :=
  .lambda 5 [.parameter 1 "x" .str]
    (.binary 4 .add (.parameter 2 "x" .str) (.constant 3 (.tuple [.str "a", .list [.null]]) .object)
      .str)

/-- The same function with other labels, the parameter being the node that is declared. -/
def appendAgain : Expr :=
  .lambda 8 [.parameter 6 "x" .str]
    (.binary 7 .add (.parameter 6 "x" .str) (.constant 3 (.tuple [.str "a", .list [.null]]) .object)
      .str)

end Sample

/-- A truth value and the integer it equals are written differently, types shown or not; plain
payloads are written alike. -/
theorem toSexp_eq_iff_of_equal_samples :
    Sample.truth.equal Sample.one = true ∧ Sample.truth.toSexp true ≠ Sample.one.toSexp true ∧
      (∃ s, Sample.truth.toSexp false = .ok s) ∧ Sample.append.equal Sample.appendAgain = true ∧
      Sample.append.serialize true = Sample.appendAgain.serialize true := by
  have hone : Sample.truth.equal Sample.one = true := by decide
  have happend : Sample.append.equal Sample.appendAgain = true := by decide
  obtain ⟨hiff, -, -, -, hwritten⟩ := toSexp_eq_iff_of_equal hone true
  obtain ⟨-, -, htext, hplain, -⟩ := toSexp_eq_iff_of_equal happend true
  have hdiffer : ¬ Sample.truth.SpelledAlike Sample.one := by
    intro h
    cases List.head_eq_of_cons_eq h
  have hpayloads : ∀ v ∈ Sample.append.payloads ++ Sample.appendAgain.payloads, v.Plain := by
    have hplain : (Value.tuple [.str "a", .list [.null]]).Plain :=
      .tuple (by simp [Value.Plain.str, Value.Plain.list, Value.Plain.null])
    rintro v (_ | ⟨_, _ | ⟨_, hv⟩⟩)
    · exact hplain
    · exact hplain
    · cases hv
  refine ⟨hone, fun heq => ?_, hwritten (by decide), happend, htext (hplain hpayloads)⟩
  rcases hiff.mp heq with ⟨f, hf⟩ | hspelled
  · cases hf
  · exact hdiffer hspelled

/-- Equal expressions may have different texts. -/
theorem not_forall_serialize_eq : ¬ ∀ a b : Expr, a.equal b = true → a.Declared → b.Declared →
    a.serialize false = b.serialize false := by
  intro h
  have heq := h Sample.truth Sample.one (by decide) (by decide) (by decide)
  have htruth : Sample.truth.serialize false = .ok "(constant true i32)" := rfl
  have hone : Sample.one.serialize false = .ok "(constant 1 i32)" := rfl
  rw [htruth, hone] at heq
  exact absurd (Except.ok.inj heq) (by decide)

end CanonicalAccess
