import CanonicalAccess.Proofs.Spelling
import CanonicalAccess.Proofs.Tokens

/-!
# Text tells expressions apart

The text of an expression shows all of its visible part. If the payloads of constants are nothing,
truth values, integers or texts, and the names of their types are words, then expressions with one
text have one skeleton, whatever characters are in names and texts and wherever lines are broken
(`serialize_eq_iff_skeleton_eq`).
-/

set_option autoImplicit false

namespace CanonicalAccess

/-- Nothing, a truth value, an integer or a text. -/
def Value.isSimple : Value → Bool
  | null | bool _ | int _ | str _ => true
  | _ => false

namespace Sexp

/-- Names that may be missing are told apart by their form, even without quotes. -/
theorem bared_ofName?_inj {o o' : Option String} :
    (ofName? o).bared = (ofName? o').bared ↔ o = o' := by
  cases o <;> cases o' <;> simp [ofName?, nil, bared]

/-- So are lists of them. -/
theorem baredAll_ofName?_inj {os os' : List (Option String)}
    (h : baredAll (os.map ofName?) = baredAll (os'.map ofName?)) : os = os' := by
  induction os generalizing os' with
  | nil => cases os' <;> simp_all [baredAll]
  | cons o os ih =>
    cases os' with
    | nil => cases h
    | cons o' os' =>
      rw [List.map_cons, List.map_cons, baredAll, baredAll, List.cons.injEq, bared_ofName?_inj] at h
      rw [h.1, ih h.2]

/-- The payload that is written in this way, an integer being a word. -/
def valueOf? : Sexp → Option Value
  | word "null" => some .null
  | word "true" => some (.bool true)
  | word "false" => some (.bool false)
  | word text => (integer? text.toList).map .int
  | datum (.str s) => some (.str s)
  | _ => none

/-- A word that looks like an integer is read as one. -/
theorem valueOf?_word {text : String} {n : Int} (h : integer? text.toList = some n) :
    valueOf? (word text) = some (.int n) := by
  have hwords : ∀ text ∈ ["null", "true", "false"], integer? text.toList = none := by decide
  have hne : ∀ word ∈ ["null", "true", "false"], text ≠ word := by
    rintro word hword rfl
    rw [hwords text hword] at h
    cases h
  simp only [List.forall_mem_cons] at hne
  unfold valueOf?
  simp [h, hne]

/-- A simple payload can be told from how it is written. -/
theorem valueOf?_bared_ofValue {v : Value} (h : v.isSimple = true) :
    valueOf? (ofValue v).bared = some v := by
  cases v with
  | null | str s => rfl
  | bool b => cases b <;> rfl
  | int n =>
    have hword : (ofValue (.int n)).bared = word (toString n) := by
      simp [ofValue, bared, datumChars, Value.literalChars]
    rw [hword, valueOf?_word (integer?_toString n)]
  | _ => cases h

end Sexp

namespace Expr

/-- A constant whose text tells all of it: the payload is simple, and the name of its type is a
word. -/
def hasLegibleConstant : Expr → Bool
  | constant _ v t => v.isSimple && Sexp.isWord t.name.toList
  | _ => true

/-- A tree whose constants are legible and whose declarations are parameters. -/
structure Legible (e : Expr) : Prop where
  declared : e.Declared
  constants : ∀ n ∈ e.nodes, n.hasLegibleConstant = true

instance (e : Expr) : Decidable e.Legible :=
  decidable_of_iff (e.Declared ∧ ∀ n ∈ e.nodes, n.hasLegibleConstant = true)
    ⟨fun h => ⟨h.1, h.2⟩, fun h => ⟨h.declared, h.constants⟩⟩

/-- The children of a legible expression are legible. -/
theorem Legible.of_mem_children {e c : Expr} (h : e.Legible) (hc : c ∈ e.children) : c.Legible :=
  ⟨(declared_iff_children.mp h.declared).1 c hc,
    fun n hn => h.constants n (mem_nodes_of_mem_children hc hn)⟩

/-- The payload of a legible constant can be read back, and so can the name of its type. -/
theorem Legible.constant {l : Label} {v : Value} {t : Ty} (h : (constant l v t).Legible) :
    v.isSimple = true ∧ Sexp.isWord t.name.toList = true :=
  Bool.and_eq_true_iff.mp (h.constants _ (self_mem_nodes rfl))

/-- The symbol of an operator with one operand is a word. -/
theorem isWord_unary (o : UnaryOp) : Sexp.isWord o.symbol.toList = true := by
  cases o <;> decide

/-- The symbol of an operator with two operands is a word. -/
theorem isWord_binary (o : BinaryOp) : Sexp.isWord o.symbol.toList = true := by
  cases o <;> decide

/-- A name that may be missing can be read back. -/
theorem readable_ofName? (o : Option String) : (Sexp.ofName? o).readable = true := by
  cases o with
  | none => decide
  | some name => rfl

/-- A form can be read back if its first element can and the form of the others can. -/
theorem readable_cons {s : Sexp} {items : List Sexp} (hs : s.readable = true)
    (hitems : (Sexp.form items).readable = true) : (Sexp.form (s :: items)).readable = true :=
  Bool.and_eq_true_iff.mpr ⟨hs, hitems⟩

/-- The empty form can be read back. -/
theorem readable_nil : (Sexp.form []).readable = true := rfl

/-- A form can be read back if each of its elements can. -/
theorem readable_map {α : Type} {f : α → Sexp} {xs : List α} (h : ∀ x ∈ xs, (f x).readable = true) :
    (Sexp.form (xs.map f)).readable = true := by
  induction xs with
  | nil => exact readable_nil
  | cons x xs ih =>
    rw [List.forall_mem_cons] at h
    exact readable_cons h.1 (ih h.2)

/-- The form of some expressions can be read back if each of them can. -/
theorem readable_toSexps {es : List Expr} (h : ∀ e ∈ es, e.skeleton.toSexp.readable = true) :
    (Sexp.form (Skeleton.toSexps (skeletons es))).readable = true := by
  rw [Skeleton.toSexps_eq_map, skeletons_eq_map, List.map_map]
  exact readable_map h

/-- A legible payload can be read back. -/
theorem readable_ofValue {v : Value} (h : v.isSimple = true) :
    (Sexp.ofValue v).readable = true := by
  cases v with
  | bool b => cases b <;> rfl
  | null | int | str => rfl
  | _ => cases h

/-- A legible expression is written with words, texts and integers alone. -/
theorem readable_toSexp {e : Expr} (h : e.Legible) : e.skeleton.toSexp.readable = true := by
  induction e with
  | absent | parameter _ _ _ | bare _ => rfl
  | constant l v t =>
    obtain ⟨hv, ht⟩ := h.constant
    exact readable_cons (by decide)
      (readable_cons (readable_ofValue hv) (readable_cons ht readable_nil))
  | member l r p ih =>
    have hr := ih (h.of_mem_children (by simp))
    exact readable_cons (by decide)
      (readable_cons hr (readable_cons (readable_ofName? _) readable_nil))
  | index l r p as ihr ihas | call l r p as ihr ihas =>
    have hr := ihr (h.of_mem_children (by simp))
    have has := readable_toSexps fun a ha => ihas a ha (h.of_mem_children (by simp [ha]))
    exact readable_cons (by decide)
      (readable_cons hr (readable_cons (readable_ofName? _) (readable_cons has readable_nil)))
  | assign l x y ihx ihy =>
    have hx := ihx (h.of_mem_children (by simp))
    have hy := ihy (h.of_mem_children (by simp))
    exact readable_cons (by decide) (readable_cons hx (readable_cons hy readable_nil))
  | unary l o x t ih =>
    have hx := ih (h.of_mem_children (by simp))
    exact readable_cons (by decide)
      (readable_cons (isWord_unary o) (readable_cons hx readable_nil))
  | binary l o x y t ihx ihy =>
    have hx := ihx (h.of_mem_children (by simp))
    have hy := ihy (h.of_mem_children (by simp))
    exact readable_cons (by decide)
      (readable_cons (isWord_binary o) (readable_cons hx (readable_cons hy readable_nil)))
  | conditional l c x y ihc ihx ihy =>
    have hc := ihc (h.of_mem_children (by simp))
    have hx := ihx (h.of_mem_children (by simp))
    have hy := ihy (h.of_mem_children (by simp))
    exact readable_cons (by decide)
      (readable_cons hc (readable_cons hx (readable_cons hy readable_nil)))
  | lambda l ps b _ ih =>
    have hb := ih (h.of_mem_children (by simp))
    have hps : (Sexp.form ((ps.map declaredName?).map Sexp.ofName?)).readable = true :=
      readable_map fun name _ => readable_ofName? name
    exact readable_cons (by decide) (readable_cons hps (readable_cons hb readable_nil))

/-- Expressions that are told apart by their forms one by one are told apart as a list. -/
theorem skeletons_eq_of_baredAll_eq {as bs : List Expr}
    (hparts : ∀ a ∈ as, ∀ b ∈ bs, a.skeleton.toSexp.bared = b.skeleton.toSexp.bared →
      a.skeleton = b.skeleton)
    (h : Sexp.baredAll (Skeleton.toSexps (skeletons as)) =
      Sexp.baredAll (Skeleton.toSexps (skeletons bs))) : skeletons as = skeletons bs := by
  induction as generalizing bs with
  | nil =>
    cases bs with
    | nil => rfl
    | cons b bs => cases h
  | cons a as ih =>
    cases bs with
    | nil => cases h
    | cons b bs =>
      simp only [skeletons, Skeleton.toSexps, Sexp.baredAll, List.cons.injEq] at h ⊢
      exact ⟨hparts a (by simp) b (by simp) h.1,
        ih (fun a ha b hb => hparts a (by simp [ha]) b (by simp [hb])) h.2⟩

/-- Operators with one operand are told apart by their symbols. -/
theorem unary_symbol_inj {o o' : UnaryOp} (h : o.symbol = o'.symbol) : o = o' := by
  have hread := UnaryOp.ofSymbol?_symbol o
  rw [h, UnaryOp.ofSymbol?_symbol] at hread
  exact (Option.some.inj hread).symm

/-- Operators with two operands are told apart by their symbols. -/
theorem binary_symbol_inj {o o' : BinaryOp} (h : o.symbol = o'.symbol) : o = o' := by
  have hread := BinaryOp.ofSymbol?_symbol o
  rw [h, BinaryOp.ofSymbol?_symbol] at hread
  exact (Option.some.inj hread).symm

/-- The word behind the opening parenthesis tells the kind of a node. -/
theorem kind?_eq_of_bared_eq {a b : Expr}
    (h : a.skeleton.toSexp.bared = b.skeleton.toSexp.bared) : a.kind? = b.kind? := by
  cases a <;> cases b <;> first
    | rfl
    | simp [skeleton, Skeleton.toSexp, Sexp.bared, Sexp.baredAll, Sexp.nil, bareName] at h

/-- Expressions that are written alike, integers and words being confused, have one skeleton. -/
theorem skeleton_eq_of_bared_eq {a b : Expr} (ha : a.Legible) (hb : b.Legible)
    (h : a.skeleton.toSexp.bared = b.skeleton.toSexp.bared) : a.skeleton = b.skeleton := by
  induction a using children_induction generalizing b with
  | step a ih =>
    have hkind := kind?_eq_of_bared_eq h
    have hparts : ∀ x ∈ a.children, ∀ y ∈ b.children,
        x.skeleton.toSexp.bared = y.skeleton.toSexp.bared → x.skeleton = y.skeleton :=
      fun x hx y hy => ih x hx (ha.of_mem_children hx) (hb.of_mem_children hy)
    cases a with
    | absent =>
      cases b with
      | absent => rfl
      | _ => cases h
    | bare l =>
      cases b with
      | bare l' => rfl
      | absent => cases h
      | _ => cases hkind
    | constant l v t =>
      cases b with
      | constant l' v' t' =>
        simp only [skeleton, Skeleton.toSexp, Sexp.bared, Sexp.baredAll, Sexp.form.injEq,
          List.cons.injEq, Sexp.word.injEq] at h
        obtain ⟨-, hvalue, htype, -⟩ := h
        have hv := Sexp.valueOf?_bared_ofValue ha.constant.1
        rw [hvalue, Sexp.valueOf?_bared_ofValue hb.constant.1] at hv
        rw [skeleton, skeleton, Option.some.inj hv, htype]
      | _ => cases hkind
    | parameter l n t =>
      cases b with
      | parameter l' n' t' => simpa [skeleton, Skeleton.toSexp, Sexp.bared, Sexp.baredAll] using h
      | _ => cases hkind
    | member l r p =>
      cases b with
      | member l' r' p' =>
        simp only [skeleton, Skeleton.toSexp, Sexp.bared, Sexp.baredAll, Sexp.form.injEq,
          List.cons.injEq, Sexp.bared_ofName?_inj] at h ⊢
        obtain ⟨-, hr, hp, -⟩ := h
        rw [hparts r (by simp) r' (by simp) hr, hp]
      | _ => cases hkind
    | index l r p as =>
      cases b with
      | index l' r' p' as' =>
        simp only [skeleton, Skeleton.toSexp, Sexp.bared, Sexp.baredAll, Sexp.form.injEq,
          List.cons.injEq, Sexp.bared_ofName?_inj] at h ⊢
        obtain ⟨-, hr, hp, has, -⟩ := h
        have harguments := skeletons_eq_of_baredAll_eq
          (fun x hx y hy => hparts x (by simp [hx]) y (by simp [hy])) has
        rw [hparts r (by simp) r' (by simp) hr, hp, harguments]
      | _ => cases hkind
    | call l r m as =>
      cases b with
      | call l' r' m' as' =>
        simp only [skeleton, Skeleton.toSexp, Sexp.bared, Sexp.baredAll, Sexp.form.injEq,
          List.cons.injEq, Sexp.bared_ofName?_inj] at h ⊢
        obtain ⟨-, hr, hm, has, -⟩ := h
        have harguments := skeletons_eq_of_baredAll_eq
          (fun x hx y hy => hparts x (by simp [hx]) y (by simp [hy])) has
        rw [hparts r (by simp) r' (by simp) hr, hm, harguments]
      | _ => cases hkind
    | assign l x v =>
      cases b with
      | assign l' x' v' =>
        simp only [skeleton, Skeleton.toSexp, Sexp.bared, Sexp.baredAll, Sexp.form.injEq,
          List.cons.injEq] at h ⊢
        obtain ⟨-, hx, hv, -⟩ := h
        rw [hparts x (by simp) x' (by simp) hx, hparts v (by simp) v' (by simp) hv]
      | _ => cases hkind
    | unary l o x t =>
      cases b with
      | unary l' o' x' t' =>
        simp only [skeleton, Skeleton.toSexp, Sexp.bared, Sexp.baredAll, Sexp.form.injEq,
          List.cons.injEq, Sexp.word.injEq] at h ⊢
        obtain ⟨-, ho, hx, -⟩ := h
        rw [unary_symbol_inj ho, hparts x (by simp) x' (by simp) hx]
      | _ => cases hkind
    | binary l o x y t =>
      cases b with
      | binary l' o' x' y' t' =>
        simp only [skeleton, Skeleton.toSexp, Sexp.bared, Sexp.baredAll, Sexp.form.injEq,
          List.cons.injEq, Sexp.word.injEq] at h ⊢
        obtain ⟨-, ho, hx, hy, -⟩ := h
        rw [binary_symbol_inj ho, hparts x (by simp) x' (by simp) hx,
          hparts y (by simp) y' (by simp) hy]
      | _ => cases hkind
    | conditional l c x y =>
      cases b with
      | conditional l' c' x' y' =>
        simp only [skeleton, Skeleton.toSexp, Sexp.bared, Sexp.baredAll, Sexp.form.injEq,
          List.cons.injEq] at h ⊢
        obtain ⟨-, hc, hx, hy, -⟩ := h
        rw [hparts c (by simp) c' (by simp) hc, hparts x (by simp) x' (by simp) hx,
          hparts y (by simp) y' (by simp) hy]
      | _ => cases hkind
    | lambda l ps x =>
      cases b with
      | lambda l' qs y =>
        simp only [skeleton, Skeleton.toSexp, Sexp.bared, Sexp.baredAll, Sexp.form.injEq,
          List.cons.injEq] at h ⊢
        obtain ⟨-, hps, hx, -⟩ := h
        rw [Sexp.baredAll_ofName?_inj hps, hparts x (by simp) y (by simp) hx]
      | _ => cases hkind

/-- Legible expressions with the same text have the same skeleton. -/
theorem skeleton_eq_of_serialize_eq {a b : Expr} (ha : a.Legible) (hb : b.Legible)
    (h : a.serialize false = b.serialize false) : a.skeleton = b.skeleton := by
  have hblank := Sexp.Layout.blank_standard
  rw [serialize_false ha.declared, serialize_false hb.declared] at h
  exact skeleton_eq_of_bared_eq ha hb (Sexp.bared_eq_of_layout_eq hblank hblank
    (readable_toSexp ha) (readable_toSexp hb) (Except.ok.inj h))

/-- Legible expressions with the same text over lines have the same text from any other writer. -/
theorem serializeWith_eq_of_serialize_eq {a b : Expr} (ha : a.Legible) (hb : b.Legible)
    (h : a.serialize false = b.serialize false) (write : Sexp → String) :
    a.serializeWith write false = b.serializeWith write false := by
  rw [serializeWith_false ha.declared, serializeWith_false hb.declared,
    skeleton_eq_of_serialize_eq ha hb h]

end Expr

/-- Legible expressions always have a text, and they have the same text exactly if they have the
same skeleton: the same kinds of nodes in the same places, with the same operators, names,
payloads and names of types. -/
theorem serialize_eq_iff_skeleton_eq {a b : Expr} (ha : a.Legible) (hb : b.Legible) :
    (∃ text, a.serialize false = .ok text) ∧
      (a.serialize false = b.serialize false ↔ a.skeleton = b.skeleton) := by
  refine ⟨⟨_, Expr.serialize_false ha.declared⟩, Expr.skeleton_eq_of_serialize_eq ha hb, ?_⟩
  intro h
  rw [Expr.serialize_false ha.declared, Expr.serialize_false hb.declared, h]

namespace Sample

/-- A call with two parameters for arguments. -/
def twoArguments : Expr :=
  .call 3 .absent .absent [.parameter 1 "x" .i32, .parameter 2 "y" .i32]

/-- A call with one parameter for an argument, whose name spells what stands between the names of
two. -/
def oneArgument : Expr := .call 2 .absent .absent [.parameter 1 "x\") (parameter \"y" .i32]

end Sample

/-- A name cannot pass for two arguments. -/
theorem serialize_eq_iff_skeleton_eq_arguments :
    Sample.twoArguments.Legible ∧ Sample.oneArgument.Legible ∧
      (∃ text, Sample.twoArguments.serialize false = .ok text) ∧
      Sample.twoArguments.serialize false ≠ Sample.oneArgument.serialize false := by
  have htwo : Sample.twoArguments.Legible := by decide
  have hone : Sample.oneArgument.Legible := by decide
  obtain ⟨htext, hiff⟩ := serialize_eq_iff_skeleton_eq htwo hone
  refine ⟨htwo, hone, htext, fun h => ?_⟩
  have hskeleton := hiff.mp h
  simp [Sample.twoArguments, Sample.oneArgument, Expr.skeleton, Expr.skeletons] at hskeleton

end CanonicalAccess
