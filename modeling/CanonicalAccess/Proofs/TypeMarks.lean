import CanonicalAccess.Proofs.Spelling
import CanonicalAccess.Sexp.Decoration

/-!
# Types shown on request

With types, an expression is written as it is without, and behind each form stands the static type
of its node. Nothing else changes, be it in lists of arguments, in lists of parameters or in
constants, and nothing else can go wrong: writing with types fails exactly if writing without does,
or if some node that is to show its type has none (`toSexp_true_iff_decorated`).

A node is written in two steps. The elements of its form follow from the node, from the names of its
parameters and from what was written of its children, whether types are shown or not; the form is
made of them and, on request, of the type. So one comparison of forms is enough for all kinds of
node.
-/

set_option autoImplicit false

namespace CanonicalAccess

/-- An attempt that goes on after another succeeds if both do. -/
theorem bind_eq_ok_iff {α β : Type} {x : Except Fault α} {f : α → Except Fault β} {b : β} :
    x >>= f = .ok b ↔ ∃ a, x = .ok a ∧ f a = .ok b := by
  cases x with
  | error fault => exact ⟨nofun, nofun⟩
  | ok a => exact ⟨fun h => ⟨a, rfl, h⟩, fun ⟨_, rfl, h⟩ => h⟩

open Sexp (Decorated DecoratedAll typeMark)

namespace Expr

/-- Whether the form of a node shows its type on request. A constant shows its type at all times,
and a node of no particular kind shows none. -/
def marksType : Expr → Bool
  | absent | constant .. | bare _ => false
  | _ => true

/-- Every node of a tree that is to show its type has one. -/
def Typed (e : Expr) : Prop := ∀ n ∈ e.nodes, n.marksType = true → ∃ t, n.type = .ok t

/-- The elements of the form of a node whose parameters have these names, and of whose children
this was written. -/
def elements (e : Expr) (names cs : List Sexp) : List Sexp :=
  match e, cs with
  | parameter _ n _, [] => [.word "parameter", .datum (.str n)]
  | member _ _ p, [r] => [.word "member", r, .ofMember p]
  | index _ _ p _, r :: as => [.word "index", r, .ofMember p, .form as]
  | assign _ _ _, [t, v] => [.word "assign", t, v]
  | call _ _ m _, r :: as => [.word "call", r, .ofMember m, .form as]
  | unary _ o _ _, [x] => [.word "unary-op", .word o.symbol, x]
  | binary _ o _ _ _, [x, y] => [.word "binary-op", .word o.symbol, x, y]
  | conditional _ _ _ _, [c, x, y] => [.word "if", c, x, y]
  | lambda _ _ _, [b] => [.word "lambda", .form names, b]
  | _, _ => []

variable {types : Bool} {e : Expr}

/-! ### How a node is written -/

/-- A list is written if its first expression is and the others are. -/
theorem toSexps_cons_eq_ok_iff {es : List Expr} {ss : List Sexp} :
    toSexps types (e :: es) = .ok ss ↔
      ∃ s rest, e.toSexp types = .ok s ∧ toSexps types es = .ok rest ∧ s :: rest = ss := by
  simp [toSexps, bind_eq_ok_iff, pure, Except.pure]

/-- There are as many forms as expressions. -/
theorem length_of_toSexps {es : List Expr} {ss : List Sexp} (h : toSexps types es = .ok ss) :
    ss.length = es.length := by
  induction es generalizing ss with
  | nil =>
    cases h
    rfl
  | cons e es ih =>
    obtain ⟨s, rest, -, hrest, rfl⟩ := toSexps_cons_eq_ok_iff.mp h
    rw [List.length_cons, ih hrest, List.length_cons]

/-- To write a node that can show its type is to write its children and the names of its
parameters, and to make the form of them. -/
theorem toSexp_eq_ok_iff (hmarks : e.marksType = true) {s : Sexp} :
    e.toSexp types = .ok s ↔ ∃ cs names, toSexps types e.children = .ok cs ∧
      parameterNames e.declarations = .ok names ∧
      e.formOf types (e.elements names cs) = .ok s := by
  cases e with
  | absent | constant | bare => cases hmarks
  | lambda l ps b =>
    -- Here the names are written before the child is.
    simp only [toSexp, bind_eq_ok_iff, children_lambda, toSexps_cons_eq_ok_iff, declarations]
    constructor
    · rintro ⟨names, hnames, s', hs', hform⟩
      exact ⟨[s'], names, ⟨s', [], hs', rfl, rfl⟩, hnames, hform⟩
    · rintro ⟨_, names, ⟨s', _, hs', ⟨⟩, rfl⟩, hnames, hform⟩
      exact ⟨names, hnames, s', hs', hform⟩
  | _ =>
    simp [toSexp, toSexps, bind_eq_ok_iff, elements, declarations, parameterNames, children,
      operands, items, pure, Except.pure, and_assoc]

/-- A node that shows no type is written in one way, with types and without. -/
theorem exists_toSexp_of_not_marksType (hmarks : e.marksType = false) :
    ∃ s, ∀ types, e.toSexp types = .ok s := by
  cases e with
  | absent | constant | bare => exact ⟨_, fun _ => rfl⟩
  | _ => cases hmarks

/-- Without types a form has its elements and no more. -/
theorem formOf_false_eq_ok_iff {items : List Sexp} {s : Sexp} :
    e.formOf false items = .ok s ↔ .form items = s := by
  simp [formOf, pure, Except.pure]

/-- With types a form ends with the mark of the type, which has to be there. -/
theorem formOf_true_eq_ok_iff {items : List Sexp} {s : Sexp} :
    e.formOf true items = .ok s ↔ ∃ t, e.type = .ok t ∧ .form (items ++ typeMark t) = s := by
  simp [formOf, bind_eq_ok_iff, typeMark, pure, Except.pure]

/-- A form can fail only for want of a type, and only with types. -/
theorem exists_formOf_iff {items : List Sexp} :
    (∃ s, e.formOf types items = .ok s) ↔ (types = true → ∃ t, e.type = .ok t) := by
  cases types with
  | false => simp [formOf_false_eq_ok_iff]
  | true => simp [formOf_true_eq_ok_iff]

/-! ### When a tree can be written -/

/-- A list is written exactly if each of its expressions is. -/
theorem exists_toSexps_iff {es : List Expr} :
    (∃ ss, toSexps types es = .ok ss) ↔ ∀ e ∈ es, ∃ s, e.toSexp types = .ok s := by
  induction es with
  | nil => exact ⟨fun _ => nofun, fun _ => ⟨[], rfl⟩⟩
  | cons e es ih =>
    simp only [toSexps_cons_eq_ok_iff, List.forall_mem_cons, ← ih]
    constructor
    · rintro ⟨_, s, rest, hs, hrest, -⟩
      exact ⟨⟨s, hs⟩, rest, hrest⟩
    · rintro ⟨⟨s, hs⟩, rest, hrest⟩
      exact ⟨s :: rest, s, rest, hs, hrest, rfl⟩

/-- Declarations have names exactly if they are all parameters. -/
theorem exists_parameterNames_iff {ps : List Expr} :
    (∃ names, parameterNames ps = .ok names) ↔ ∀ p ∈ ps, p.declaredName?.isSome = true := by
  constructor
  · rintro ⟨names, hnames⟩
    induction ps generalizing names with
    | nil => exact nofun
    | cons p ps ih =>
      simp only [parameterNames, bind_eq_ok_iff] at hnames
      obtain ⟨name, hname, rest, hrest, -⟩ := hnames
      rw [List.forall_mem_cons]
      refine ⟨?_, ih rest hrest⟩
      cases p with
      | parameter l n t => rfl
      | _ => cases hname
  · intro h
    exact ⟨_, parameterNames_eq h⟩

/-- A tree is typed if its children are and its root has a type where one is marked. -/
theorem typed_iff_children : e.Typed ↔
    (∀ c ∈ e.children, c.Typed) ∧ (e.marksType = true → ∃ t, e.type = .ok t) := by
  constructor
  · intro h
    refine ⟨fun c hc n hn => h n (mem_nodes_of_mem_children hc hn), fun hmarks => ?_⟩
    have hpresent : e.isAbsent = false := by cases e <;> first | rfl | cases hmarks
    exact h e (self_mem_nodes hpresent) hmarks
  · rintro ⟨hchildren, hroot⟩ n hn
    rcases (mem_nodes_iff n e).mp hn with ⟨c, hc, hn⟩ | ⟨-, rfl⟩
    · exact hchildren c hc n hn
    · exact hroot

/-- A node that can show its type is written if its children are, if it declares nothing but
parameters, and, where types are shown, if it has a type. -/
theorem exists_toSexp_iff_children (hmarks : e.marksType = true) :
    (∃ s, e.toSexp types = .ok s) ↔
      (∀ c ∈ e.children, ∃ s, c.toSexp types = .ok s) ∧
        (∀ p ∈ e.declarations, p.declaredName?.isSome = true) ∧
        (types = true → ∃ t, e.type = .ok t) := by
  simp only [toSexp_eq_ok_iff hmarks, ← exists_toSexps_iff, ← exists_parameterNames_iff]
  constructor
  · rintro ⟨s, cs, names, hcs, hnames, hs⟩
    exact ⟨⟨cs, hcs⟩, ⟨names, hnames⟩, exists_formOf_iff.mp ⟨s, hs⟩⟩
  · rintro ⟨⟨cs, hcs⟩, ⟨names, hnames⟩, htype⟩
    obtain ⟨s, hs⟩ := exists_formOf_iff.mpr htype
    exact ⟨s, cs, names, hcs, hnames, hs⟩

/-- A tree is written if only parameters are declared in it and, where types are shown, every node
that is to show one has one. -/
theorem exists_toSexp_iff (types : Bool) (e : Expr) :
    (∃ s, e.toSexp types = .ok s) ↔ e.Declared ∧ (types = true → e.Typed) := by
  induction e using children_induction with
  | step e ih =>
    rw [declared_iff_children, typed_iff_children]
    cases hmarks : e.marksType with
    | false =>
      obtain ⟨s, hs⟩ := exists_toSexp_of_not_marksType hmarks
      have hnone : e.children = [] ∧ e.declarations = [] := by
        cases e with
        | absent | constant | bare => exact ⟨rfl, rfl⟩
        | _ => cases hmarks
      simp [hs, hnone]
    | true =>
      have hchildren : (∀ c ∈ e.children, ∃ s, c.toSexp types = .ok s) ↔
          (∀ c ∈ e.children, c.Declared) ∧ (types = true → ∀ c ∈ e.children, c.Typed) := by
        rw [forall₂_congr ih]
        exact ⟨fun h => ⟨fun c hc => (h c hc).1, fun htypes c hc => (h c hc).2 htypes⟩,
          fun h c hc => ⟨h.1 c hc, fun htypes => h.2 htypes c hc⟩⟩
      rw [exists_toSexp_iff_children hmarks, hchildren]
      tauto

/-! ### What types add -/

/-- Without expressions there is nothing to decorate. -/
theorem decoratedAll_nil_iff {ss' : List Sexp} : DecoratedAll [] [] ss' ↔ [] = ss' :=
  ⟨fun h => by cases h; rfl, fun h => h ▸ .nil⟩

/-- A list is decorated one form at a time. -/
theorem decoratedAll_cons_iff {es : List Expr} {s : Sexp} {ss ss' : List Sexp} :
    DecoratedAll (e :: es) (s :: ss) ss' ↔
      ∃ s' rest, Decorated e s s' ∧ DecoratedAll es ss rest ∧ s' :: rest = ss' := by
  constructor
  · intro h
    cases h with
    | cons hs hss => exact ⟨_, _, hs, hss, rfl⟩
  · rintro ⟨s', rest, hs, hss, rfl⟩
    exact .cons hs hss

/-- What is written for a node that shows no type is not decorated. -/
theorem decorated_iff_of_not_marksType (hmarks : e.marksType = false) {s s' : Sexp} :
    Decorated e s s' ↔ s = s' := by
  constructor
  · intro h
    cases h <;> first | rfl | cases hmarks
  · rintro rfl
    cases e with
    | absent => exact .absent s
    | constant l v t => exact .constant l v t s
    | bare l => exact .bare l s
    | _ => cases hmarks

/-- With what was written of its children decorated and its type put behind the elements, the form
of a node is decorated. -/
theorem decorated_elements {names cs cs' : List Sexp} {t : Ty} (hmarks : e.marksType = true)
    (hcs : DecoratedAll e.children cs cs') (htype : e.type = .ok t) :
    Decorated e (.form (e.elements names cs)) (.form (e.elements names cs' ++ typeMark t)) := by
  cases e with
  | absent | constant | bare => cases hmarks
  | parameter l n t' =>
    cases hcs
    cases htype
    exact .parameter l n t _
  | member l r p =>
    obtain _ | ⟨hr, ⟨⟩⟩ := hcs
    exact .member hr htype
  | index l r p as =>
    obtain _ | ⟨hr, has⟩ := hcs
    exact .index hr has htype
  | assign l x v =>
    obtain _ | ⟨hx, _ | ⟨hv, ⟨⟩⟩⟩ := hcs
    exact .assign hx hv htype
  | call l r m as =>
    obtain _ | ⟨hr, has⟩ := hcs
    exact .call hr has htype
  | unary l o x t' =>
    obtain _ | ⟨hx, ⟨⟩⟩ := hcs
    cases htype
    exact .unary hx
  | binary l o x y t' =>
    obtain _ | ⟨hx, _ | ⟨hy, ⟨⟩⟩⟩ := hcs
    cases htype
    exact .binary hx hy
  | conditional l c x y =>
    obtain _ | ⟨hc, _ | ⟨hx, _ | ⟨hy, ⟨⟩⟩⟩⟩ := hcs
    exact .conditional hc hx hy htype
  | lambda l ps b =>
    obtain _ | ⟨hb, ⟨⟩⟩ := hcs
    exact .lambda hb htype

/-- That is the only way to decorate it. -/
theorem exists_of_decorated_elements {names cs : List Sexp} {s' : Sexp}
    (hmarks : e.marksType = true) (hlen : cs.length = e.children.length)
    (h : Decorated e (.form (e.elements names cs)) s') :
    ∃ cs' t, DecoratedAll e.children cs cs' ∧ e.type = .ok t ∧
      .form (e.elements names cs' ++ typeMark t) = s' := by
  cases e with
  | absent | constant | bare => cases hmarks
  | parameter l n t =>
    obtain rfl := List.length_eq_zero_iff.mp hlen
    cases h
    exact ⟨[], t, .nil, rfl, rfl⟩
  | member l r p =>
    obtain ⟨s, rfl⟩ := List.length_eq_one_iff.mp hlen
    cases h with
    | member hr htype => exact ⟨_, _, .cons hr .nil, htype, rfl⟩
  | index l r p as =>
    obtain ⟨s, ss, rfl⟩ := List.exists_cons_of_length_eq_add_one hlen
    cases h with
    | index hr has htype => exact ⟨_, _, .cons hr has, htype, rfl⟩
  | assign l x v =>
    obtain ⟨s, u, rfl⟩ := List.length_eq_two.mp hlen
    cases h with
    | assign hx hv htype => exact ⟨_, _, .cons hx (.cons hv .nil), htype, rfl⟩
  | call l r m as =>
    obtain ⟨s, ss, rfl⟩ := List.exists_cons_of_length_eq_add_one hlen
    cases h with
    | call hr has htype => exact ⟨_, _, .cons hr has, htype, rfl⟩
  | unary l o x t =>
    obtain ⟨s, rfl⟩ := List.length_eq_one_iff.mp hlen
    cases h with
    | unary hx => exact ⟨_, t, .cons hx .nil, rfl, rfl⟩
  | binary l o x y t =>
    obtain ⟨s, u, rfl⟩ := List.length_eq_two.mp hlen
    cases h with
    | binary hx hy => exact ⟨_, t, .cons hx (.cons hy .nil), rfl, rfl⟩
  | conditional l c x y =>
    obtain ⟨s, u, v, rfl⟩ := List.length_eq_three.mp hlen
    cases h with
    | conditional hc hx hy htype =>
      exact ⟨_, _, .cons hc (.cons hx (.cons hy .nil)), htype, rfl⟩
  | lambda l ps b =>
    obtain ⟨s, rfl⟩ := List.length_eq_one_iff.mp hlen
    cases h with
    | lambda hb htype => exact ⟨_, _, .cons hb .nil, htype, rfl⟩

/-- Lists are written with types as they are without, and decorated, if their members are. -/
theorem toSexps_true_eq_ok_iff {es : List Expr}
    (h : ∀ e ∈ es, ∀ s', e.toSexp true = .ok s' ↔ ∃ s, e.toSexp false = .ok s ∧ Decorated e s s')
    {ss' : List Sexp} :
    toSexps true es = .ok ss' ↔ ∃ ss, toSexps false es = .ok ss ∧ DecoratedAll es ss ss' := by
  induction es generalizing ss' with
  | nil => simp [toSexps, decoratedAll_nil_iff]
  | cons e es ih =>
    rw [List.forall_mem_cons] at h
    simp only [toSexps_cons_eq_ok_iff, h.1, ih h.2]
    constructor
    · rintro ⟨s', rest', ⟨s, hs, hs'⟩, ⟨rest, hrest, hrest'⟩, rfl⟩
      exact ⟨s :: rest, ⟨s, rest, hs, hrest, rfl⟩, .cons hs' hrest'⟩
    · rintro ⟨_, ⟨s, rest, hs, hrest, rfl⟩, hss'⟩
      obtain ⟨s', rest', hs', hrest', rfl⟩ := decoratedAll_cons_iff.mp hss'
      exact ⟨s', rest', ⟨s, hs, hs'⟩, ⟨rest, hrest, hrest'⟩, rfl⟩

/-- What is written with types is what is written without, decorated. -/
theorem toSexp_true_eq_ok_iff (e : Expr) (s' : Sexp) :
    e.toSexp true = .ok s' ↔ ∃ s, e.toSexp false = .ok s ∧ Decorated e s s' := by
  induction e using children_induction generalizing s' with
  | step e ih =>
    cases hmarks : e.marksType with
    | false =>
      obtain ⟨s, hs⟩ := exists_toSexp_of_not_marksType hmarks
      simp [hs, decorated_iff_of_not_marksType hmarks]
    | true =>
      simp only [toSexp_eq_ok_iff hmarks, toSexps_true_eq_ok_iff ih, formOf_false_eq_ok_iff,
        formOf_true_eq_ok_iff]
      constructor
      · rintro ⟨cs', names, ⟨cs, hcs, hcs'⟩, hnames, t, htype, rfl⟩
        exact ⟨_, ⟨cs, names, hcs, hnames, rfl⟩, decorated_elements hmarks hcs' htype⟩
      · rintro ⟨_, ⟨cs, names, hcs, hnames, rfl⟩, hs'⟩
        obtain ⟨cs', t, hcs', htype, hform⟩ :=
          exists_of_decorated_elements hmarks (length_of_toSexps hcs) hs'
        exact ⟨cs', names, ⟨cs, hcs, hcs'⟩, hnames, t, htype, hform⟩

end Expr

/-- An expression is written with types exactly if it is written without and every node that is to
show its type has one. What is written is then what is written without, decorated with the types,
and nothing else is. -/
theorem toSexp_true_iff_decorated (e : Expr) :
    ((∃ s', e.toSexp true = .ok s') ↔ (∃ s, e.toSexp false = .ok s) ∧
      ∀ n ∈ e.nodes, n.marksType = true → ∃ t, n.type = .ok t) ∧
    ∀ s, e.toSexp false = .ok s →
      ∀ s', e.toSexp true = .ok s' ↔ Decorated e s s' := by
  refine ⟨?_, ?_⟩
  · have htyped := Expr.exists_toSexp_iff true e
    have hplain := Expr.exists_toSexp_iff false e
    simp only [Bool.false_eq_true, false_imp_iff, and_true, true_imp_iff] at htyped hplain
    rw [htyped, hplain]
    rfl
  · intro s hs s'
    rw [Expr.toSexp_true_eq_ok_iff, hs]
    simp

-- A call without a method can be written, but there is no type to show.
example :
    (Expr.call 1 (.parameter 0 "x" .i32) .absent []).toSexp false = .ok
      (.form [.word "call", .form [.word "parameter", .datum (.str "x")], .nil, .form []]) ∧
    (Expr.call 1 (.parameter 0 "x" .i32) .absent []).toSexp true = .error .missing := ⟨rfl, rfl⟩

end CanonicalAccess
