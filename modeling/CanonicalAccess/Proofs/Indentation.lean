import CanonicalAccess.Proofs.Fitting

/-!
# Indentation

The text of an S-expression at some depth is its text at depth zero with the indentation of that
depth put in behind every line break (`toList_layout_eq_shifted`). So depth decides nothing but how
far lines are indented, and a form has its lines broken in the same places wherever it stands.

That a form breaks where its flat text does not fit says nothing about depth, so the lines are the
same; and an element without characters goes without a line only where nothing is ever indented. The
line breaks of the layout have to be the only ones, in the words and texts no less than in a step of
indentation.
-/

set_option autoImplicit false

namespace CanonicalAccess.Sexp

/-- A text with some characters put in behind every line break. -/
def shifted (pad cs : List Char) : List Char :=
  cs.flatMap fun c => if c = '\n' then '\n' :: pad else [c]

/-- S-expressions in which no word and no text holds a line break. Their other data are integers,
truth values and nothing. -/
inductive Unbroken : Sexp → Prop where
  | word (text : String) (unbroken : '\n' ∉ text.toList) : Unbroken (.word text)
  | text (s : String) (unbroken : '\n' ∉ s.toList) : Unbroken (.datum (.str s))
  | integer (n : Int) : Unbroken (.datum (.int n))
  | truth (b : Bool) : Unbroken (.datum (.bool b))
  | nothing : Unbroken (.datum .null)
  | form (items : List Sexp) (unbroken : ∀ s ∈ items, Unbroken s) : Unbroken (.form items)

variable {l : Layout} {depth : Int} {pad : List Char}

/-! ### Shifted texts -/

/-- Parts of a text are shifted apart from each other. -/
theorem shifted_append (pad cs ds : List Char) :
    shifted pad (cs ++ ds) = shifted pad cs ++ shifted pad ds := List.flatMap_append

/-- Behind a line break stands the padding. -/
theorem shifted_break (pad cs : List Char) :
    shifted pad ('\n' :: cs) = '\n' :: (pad ++ shifted pad cs) := by
  simp [shifted]

/-- Where no line breaks, nothing is put in. -/
theorem shifted_of_not_mem {cs : List Char} (h : '\n' ∉ cs) : shifted pad cs = cs := by
  induction cs with
  | nil => rfl
  | cons c cs ih =>
    rw [List.mem_cons, not_or] at h
    rw [shifted, List.flatMap_cons, if_neg (Ne.symm h.1), ← shifted, ih h.2, List.singleton_append]

/-- A shifted text is empty exactly if the text is. -/
theorem shifted_eq_nil_iff {cs : List Char} : shifted pad cs = [] ↔ cs = [] := by
  constructor
  · intro h
    cases cs with
    | nil => rfl
    | cons c cs =>
      rw [shifted, List.flatMap_cons] at h
      split at h <;> cases h
  · rintro rfl
    rfl

/-! ### Indentation of a depth -/

/-- Indentation adds up, as long as depths are not negative. -/
theorem indent_add (l : Layout) (k : Nat) (h : 0 ≤ depth) :
    l.indent (depth + k) = l.indent k ++ l.indent depth := by
  have hsteps : (depth + k).toNat = k + depth.toNat := by omega
  rw [Layout.indent, hsteps, ← List.replicate_append_replicate, List.flatten_append]
  rfl

/-- Indentation has no line break if a step of it has none. -/
theorem not_mem_indent (hl : '\n' ∉ l.step) (depth : Int) : '\n' ∉ l.indent depth := by
  intro h
  obtain ⟨step, hstep, hmem⟩ := List.mem_flatten.mp h
  rw [List.eq_of_mem_replicate hstep] at hmem
  exact hl hmem

/-- A positive depth indents by nothing only if every depth does. -/
theorem indent_eq_nil_iff (h : 0 < depth) : l.indent depth = [] ↔ l.step = [] := by
  have hsteps : depth.toNat ≠ 0 := by omega
  simp [Layout.indent, hsteps]

/-! ### Shifted lines -/

/-- To shift a line is to shift its text and to set it deeper. -/
theorem shifted_line (hl : '\n' ∉ l.step) (k : Nat) (h : 0 ≤ depth) (cs : List Char) :
    shifted (l.indent k) ('\n' :: (l.indent depth ++ cs)) =
      '\n' :: (l.indent (depth + k) ++ shifted (l.indent k) cs) := by
  rw [shifted_break, shifted_append, shifted_of_not_mem (not_mem_indent hl depth), indent_add l k h,
    List.append_assoc]

/-- Texts on lines of their own are shifted by shifting each of them and setting them deeper. -/
theorem shifted_onLines (hl : '\n' ∉ l.step) (k : Nat) (h : 0 ≤ depth)
    (texts : List (List Char)) :
    shifted (l.indent k) (onLines l depth texts) =
      onLines l (depth + k) (texts.map (shifted (l.indent k))) := by
  induction texts with
  | nil => rfl
  | cons cs texts ih =>
    have hcons : ∀ depth cs texts, onLines l depth (cs :: texts) =
        '\n' :: (l.indent depth ++ cs) ++ onLines l depth texts := fun _ _ _ => rfl
    rw [hcons, shifted_append, shifted_line hl k h, ih, List.map_cons, hcons]

/-- To shift a broken form is to shift its elements and to set it deeper. -/
theorem shifted_brokenChars (hl : '\n' ∉ l.step) (k : Nat) (h : 0 ≤ depth) (first : List Char)
    (others : List (List Char)) :
    shifted (l.indent k) (brokenChars l depth first others) =
      brokenChars l (depth + k) (shifted (l.indent k) first)
        (others.map (shifted (l.indent k))) := by
  have hdepth : depth + k + 1 = depth + 1 + k := by omega
  have hopening : ∀ cs, shifted (l.indent k) ('(' :: cs) = '(' :: shifted (l.indent k) cs :=
    fun _ => rfl
  have hclosing : shifted (l.indent k) [')'] = [')'] := rfl
  rw [brokenChars_eq, brokenChars_eq, hopening, shifted_append, shifted_append,
    shifted_onLines hl k (by omega), shifted_line hl k h, hclosing, hdepth]

/-! ### Shifted S-expressions -/

/-- Only where nothing is ever indented does an element go without a line, at positive depths. -/
theorem hides_add (k : Nat) (h : 0 < depth) {others : List Sexp}
    (hothers : ∀ s ∈ others,
      (layout l (depth + k) s).toList = shifted (l.indent k) (layout l depth s).toList) :
    Hides l (depth + k) others ↔ Hides l depth others := by
  rw [Hides, Hides, indent_eq_nil_iff h, indent_eq_nil_iff (by omega)]
  refine and_congr_right fun _ => ?_
  have hempty : ∀ s ∈ others, layout l (depth + k) s = "" ↔ layout l depth s = "" := by
    intro s hs
    rw [← String.toList_eq_nil_iff, hothers s hs, shifted_eq_nil_iff, String.toList_eq_nil_iff]
  rw [List.map_eq_singleton_iff, List.map_eq_singleton_iff]
  constructor
  · rintro ⟨s, rfl, hs⟩
    exact ⟨s, rfl, (hempty s (List.mem_singleton_self s)).mp hs⟩
  · rintro ⟨s, rfl, hs⟩
    exact ⟨s, rfl, (hempty s (List.mem_singleton_self s)).mpr hs⟩

/-- What is set on one line is set flat. -/
theorem toList_layout_of_isFlat {s : Sexp} (h : s.isFlat l = true) :
    (layout l depth s).toList = s.flatChars := by
  rw [toList_layout, (block_of_isFlat l depth s).1 h, chars_single]

/-- An S-expression whose flat text has no line break is shifted by setting it deeper. -/
theorem toList_layout_add (hl : '\n' ∉ l.step) (k : Nat) {s : Sexp} (hs : '\n' ∉ s.flatChars)
    (h : 0 ≤ depth) :
    (layout l (depth + k) s).toList = shifted (l.indent k) (layout l depth s).toList := by
  induction s using Sexp.induction generalizing depth with
  | word text =>
    rw [toList_layout_of_isFlat rfl, toList_layout_of_isFlat rfl, shifted_of_not_mem hs]
  | datum value =>
    rw [toList_layout_of_isFlat rfl, toList_layout_of_isFlat rfl, shifted_of_not_mem hs]
  | form items ih =>
    cases hflat : (form items).isFlat l with
    | true =>
      rw [toList_layout_of_isFlat hflat, toList_layout_of_isFlat hflat, shifted_of_not_mem hs]
    | false =>
      cases items with
      | nil => cases hflat
      | cons first others =>
        have hdepth : depth + k + 1 = depth + 1 + k := by omega
        have hitems : ∀ s ∈ first :: others, (layout l (depth + 1 + k) s).toList =
            shifted (l.indent k) (layout l (depth + 1) s).toList := by
          intro s hmem
          exact ih s hmem (fun hbreak => hs ((infix_flatChars hmem).subset hbreak)) (by omega)
        rw [List.forall_mem_cons] at hitems
        rw [toList_layout_of_not_fits hflat, toList_layout_of_not_fits hflat,
          shifted_brokenChars hl k h, hdepth, hitems.1]
        by_cases hhides : Hides l (depth + 1) others
        · rw [if_pos hhides, if_pos ((hides_add k (by omega) hitems.2).mpr hhides), List.map_nil]
        · rw [if_neg hhides, if_neg (mt (hides_add k (by omega) hitems.2).mp hhides),
            List.map_congr_left hitems.2, List.map_map]
          rfl

/-! ### Flat texts without a line break -/

/-- A line of texts without line breaks has none. -/
theorem not_mem_spaced {texts : List (List Char)} (h : ∀ t ∈ texts, '\n' ∉ t) :
    '\n' ∉ spaced texts := by
  induction texts with
  | nil => exact List.not_mem_nil
  | cons first rest ih =>
    rw [List.forall_mem_cons] at h
    cases rest with
    | nil => exact h.1
    | cons next rest =>
      have hspaced : spaced (first :: next :: rest) = first ++ ' ' :: spaced (next :: rest) := rfl
      rw [hspaced, List.mem_append, List.mem_cons]
      rintro (hfirst | hblank | hrest)
      · exact h.1 hfirst
      · cases hblank
      · exact ih h.2 hrest

/-- Quotes and backslashes put no line break into a text. -/
theorem not_mem_datumChars_str {s : String} (h : '\n' ∉ s.toList) :
    '\n' ∉ datumChars (.str s) := by
  have hwritten : ∀ c, '\n' ∈ Text.spanning c → c = '\n' := by
    intro c hc
    unfold Text.spanning at hc
    split at hc <;> simpa [eq_comm] using hc
  have hescaped : '\n' ∉ Text.escape Text.spanning s.toList := by
    intro hbreak
    obtain ⟨c, hc, hmem⟩ := List.mem_flatMap.mp hbreak
    exact h (hwritten c hmem ▸ hc)
  simpa [datumChars, Text.enclose] using hescaped

/-- An integer is written without line breaks. -/
theorem not_mem_datumChars_int (n : Int) : '\n' ∉ datumChars (.int n) := by
  intro hbreak
  have hdigit := (isWord_iff.mp (isWord_toString n)).2 '\n' hbreak
  exact absurd hdigit (by decide)

/-- An unbroken S-expression is written flat without line breaks. -/
theorem Unbroken.not_mem_flatChars {s : Sexp} (h : s.Unbroken) : '\n' ∉ s.flatChars := by
  induction h with
  | word text unbroken => exact unbroken
  | text s unbroken => exact not_mem_datumChars_str unbroken
  | integer n => exact not_mem_datumChars_int n
  | truth b => cases b <;> decide
  | nothing => decide
  | form items _ ih =>
    have hitems : '\n' ∉ spaced (items.map flatChars) :=
      not_mem_spaced (List.forall_mem_map.mpr ih)
    simpa [flatChars, flatItems_eq_map, parens] using hitems

/-- Where the only line breaks are the layout's own, the text at a depth is the text at depth zero
with that many steps of indentation put in behind every line break. -/
theorem toList_layout_eq_shifted {l : Layout} (hl : '\n' ∉ l.step) {s : Sexp} (hs : s.Unbroken)
    (k : Nat) :
    (layout l k s).toList =
      shifted (List.replicate k l.step).flatten (layout l 0 s).toList := by
  have hshift := toList_layout_add hl k hs.not_mem_flatChars (Int.le_refl 0)
  rwa [Int.zero_add] at hshift

/-- A form with a form inside it. -/
def Sample.twofold : Sexp :=
  .form [.word "a", .form [.word "b", .datum (.str "c\"")], .datum (.int 1)]

/-- The sample is unbroken. -/
theorem unbroken_twofold : Sample.twofold.Unbroken := by
  have hinner : Unbroken (.form [.word "b", .datum (.str "c\"")]) := by
    refine .form _ ?_
    simp only [List.forall_mem_cons, List.not_mem_nil, false_imp_iff, implies_true, and_true]
    exact ⟨.word _ (by decide), .text _ (by decide)⟩
  refine .form _ ?_
  simp only [List.forall_mem_cons, List.not_mem_nil, false_imp_iff, implies_true, and_true]
  exact ⟨.word _ (by decide), hinner, .integer 1⟩

/-- Both forms break two steps deeper where they break at depth zero. -/
theorem toList_layout_eq_shifted_twofold :
    '\n' ∉ ['\t', ' '] ∧ Sample.twofold.Unbroken ∧
      layout ⟨4, ['\t', ' ']⟩ 0 Sample.twofold =
        "(a\n\t (b\n\t \t \"c\\\"\"\n\t )\n\t 1\n)" ∧
      (layout ⟨4, ['\t', ' ']⟩ 2 Sample.twofold).toList =
        "(a\n\t \t \t (b\n\t \t \t \t \"c\\\"\"\n\t \t \t )\n\t \t \t 1\n\t \t )".toList := by
  refine ⟨by decide, unbroken_twofold, by decide, ?_⟩
  have hshift := toList_layout_eq_shifted (l := ⟨4, ['\t', ' ']⟩) (by decide) unbroken_twofold 2
  exact hshift.trans (by decide)

end CanonicalAccess.Sexp
