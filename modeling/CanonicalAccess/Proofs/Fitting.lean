import CanonicalAccess.Proofs.Tokens
import CanonicalAccess.Sexp.Flat
import Mathlib.Data.List.Infix

/-!
# Forms that fit

Elements are laid out before their form is, and still a form is broken exactly if its flat text does
not fit: the flat text of an element is part of that of its form, so an element that has to be
broken never stands in a form that fits (`isFlat_of_mem`). The text of a form can thus be told from
the top (`layout_form`).

There is one exception. The second of two elements is given no line if neither it nor the
indentation in front of it shows a character. In all other forms that are broken every element but
the first has a line of its own, and the text is the fitted text exactly if no element goes without
one.
-/

set_option autoImplicit false

namespace CanonicalAccess.Sexp

variable {l : Layout} {depth : Int}

/-- The text of a layout is that of its block. -/
theorem toList_layout (l : Layout) (depth : Int) (s : Sexp) :
    (layout l depth s).toList = (block l depth s).chars l := String.toList_ofList

/-- The elements of a form are set one by one. -/
theorem blocks_eq_map (l : Layout) (depth : Int) (items : List Sexp) :
    blocks l depth items = items.map (block l depth) := by
  induction items with
  | nil => rfl
  | cons s rest ih => rw [blocks, ih, List.map_cons]

/-- The elements of a form are fitted one by one. -/
theorem fittedItems_eq_map (l : Layout) (depth : Int) (items : List Sexp) :
    fittedItems l depth items = items.map (fittedChars l depth) := by
  induction items with
  | nil => rfl
  | cons s rest ih => rw [fittedItems, ih, List.map_cons]

/-! ### Parts of a text that fits -/

/-- A text fits if it is not too long and has no line break. -/
theorem fits_iff {cs : List Char} :
    l.fits cs = true ↔ (cs.length : Int) ≤ l.width ∧ '\n' ∉ cs := by
  simp [Layout.fits]

/-- Whatever is part of a text that fits does fit. -/
theorem fits_of_infix {cs ds : List Char} (h : l.fits cs = true) (hpart : ds <:+: cs) :
    l.fits ds = true := by
  obtain ⟨hlength, hbreak⟩ := fits_iff.mp h
  have hle := hpart.length_le
  exact fits_iff.mpr ⟨by omega, fun hmem => hbreak (hpart.subset hmem)⟩

/-- Each text is part of the line that they make together. -/
theorem infix_spaced {t : List Char} {texts : List (List Char)} (h : t ∈ texts) :
    t <:+: spaced texts := by
  induction texts with
  | nil => cases h
  | cons first rest ih =>
    cases rest with
    | nil =>
      rw [List.mem_singleton.mp h]
      exact List.infix_refl first
    | cons next rest =>
      have hspaced : spaced (first :: next :: rest) = first ++ ' ' :: spaced (next :: rest) := rfl
      rw [hspaced]
      rcases List.mem_cons.mp h with rfl | hrest
      · exact (List.prefix_append t _).isInfix
      · have hpart := (ih hrest).trans (List.suffix_cons ' ' _).isInfix
        exact hpart.trans (List.suffix_append first _).isInfix

/-- The flat text of an element is part of that of its form. -/
theorem infix_flatChars {items : List Sexp} {s : Sexp} (hs : s ∈ items) :
    s.flatChars <:+: (form items).flatChars := by
  rw [flatChars, flatItems_eq_map]
  have hpart := infix_spaced (List.mem_map_of_mem (f := flatChars) hs)
  exact hpart.trans ⟨['('], [')'], rfl⟩

/-! ### What is set on one line -/

/-- Whether an S-expression is set on one line: all that is no form, forms without elements, and
forms whose flat text fits. -/
def isFlat (l : Layout) : Sexp → Bool
  | form (first :: others) => l.fits (form (first :: others)).flatChars
  | _ => true

/-- If a form fits on a line, its elements stand there as they do alone. -/
theorem isFlat_of_mem {items : List Sexp} (h : l.fits (form items).flatChars = true) {s : Sexp}
    (hs : s ∈ items) : s.isFlat l = true := by
  have hfits := fits_of_infix h (infix_flatChars hs)
  unfold isFlat
  split
  · exact hfits
  · rfl

/-- Where elements that are set on one line have their flat texts and all others take several lines,
there is a line for the form exactly if its flat text fits, and it is that text. -/
theorem lineOf?_blocks {items : List Sexp}
    (h : ∀ s ∈ items, (s.isFlat l = true → block l depth s = .single s.flatChars) ∧
      (s.isFlat l = false → (block l depth s).tail ≠ [])) (line : List Char) :
    lineOf? l (items.map (block l depth)) = some line ↔
      l.fits (form items).flatChars = true ∧ (form items).flatChars = line := by
  have hflat : (∀ s ∈ items, s.isFlat l = true) →
      parens (spaced ((items.map (block l depth)).map Block.head)) = (form items).flatChars := by
    intro hall
    rw [flatChars, flatItems_eq_map, List.map_map]
    congr 2
    refine List.map_congr_left fun s hs => ?_
    rw [Function.comp_apply, (h s hs).1 (hall s hs)]
    rfl
  rw [lineOf?_eq_some_iff, List.forall_mem_map]
  constructor
  · rintro ⟨htail, hfits, rfl⟩
    have hall : ∀ s ∈ items, s.isFlat l = true := by
      intro s hs
      by_contra hbroken
      exact (h s hs).2 (by simpa using hbroken) (htail s hs)
    rw [hflat hall] at hfits ⊢
    exact ⟨hfits, rfl⟩
  · rintro ⟨hfits, rfl⟩
    have hall : ∀ s ∈ items, s.isFlat l = true := fun s hs => isFlat_of_mem hfits hs
    refine ⟨?_, hfits, hflat hall⟩
    intro s hs
    rw [(h s hs).1 (hall s hs)]
    rfl

/-- With such elements, a form is set on one line exactly if its flat text fits. -/
theorem block_form_of_forall {first : Sexp} {others : List Sexp}
    (h : ∀ s ∈ first :: others,
      (s.isFlat l = true → block l (depth + 1) s = .single s.flatChars) ∧
        (s.isFlat l = false → (block l (depth + 1) s).tail ≠ [])) :
    block l depth (form (first :: others)) =
      if l.fits (form (first :: others)).flatChars then .single (form (first :: others)).flatChars
      else broken l depth (block l (depth + 1) first) (others.map (block l (depth + 1))) := by
  have hline := lineOf?_blocks h
  rw [block, blocks_eq_map, List.map_cons, setForm, ← List.map_cons]
  split
  · rename_i line hsome
    obtain ⟨hfits, rfl⟩ := (hline line).mp hsome
    rw [if_pos hfits]
  · rename_i hnone
    rw [if_neg]
    intro hfits
    rw [(hline _).mpr ⟨hfits, rfl⟩] at hnone
    cases hnone

/-- What is set on one line has its flat text, and all else takes several lines. -/
theorem block_of_isFlat (l : Layout) (depth : Int) (s : Sexp) :
    (s.isFlat l = true → block l depth s = .single s.flatChars) ∧
      (s.isFlat l = false → (block l depth s).tail ≠ []) := by
  induction s using Sexp.induction generalizing depth with
  | word text => exact ⟨fun _ => rfl, nofun⟩
  | datum value => exact ⟨fun _ => rfl, nofun⟩
  | form items ih =>
    cases items with
    | nil => exact ⟨fun _ => rfl, nofun⟩
    | cons first others =>
      rw [isFlat, block_form_of_forall fun s hs => ih s hs (depth + 1)]
      constructor
      · intro hfits
        rw [if_pos hfits]
      · intro hfits
        simp [hfits, broken]

/-- A form is set on one line exactly if its flat text fits. -/
theorem block_form (l : Layout) (depth : Int) (first : Sexp) (others : List Sexp) :
    block l depth (form (first :: others)) =
      if l.fits (form (first :: others)).flatChars then .single (form (first :: others)).flatChars
      else broken l depth (block l (depth + 1) first) (others.map (block l (depth + 1))) :=
  block_form_of_forall fun s _ => block_of_isFlat l (depth + 1) s

/-! ### What a broken form looks like -/

/-- Some elements go without a line: there is a single one, and neither it nor the indentation in
front of it shows a character. -/
def Hides (l : Layout) (depth : Int) (others : List Sexp) : Prop :=
  l.indent depth = [] ∧ others.map (layout l depth) = [""]

instance (l : Layout) (depth : Int) (others : List Sexp) : Decidable (Hides l depth others) :=
  inferInstanceAs (Decidable (_ ∧ _))

/-- A block shows nothing if it has a single line and that is empty. -/
theorem chars_eq_nil_iff {b : Block} : b.chars l = [] ↔ b.head = [] ∧ b.tail = [] := by
  rw [Block.chars, List.append_eq_nil_iff]
  cases b.tail <;> simp

/-- A line is blank if neither the indentation nor the block in it has a character. -/
theorem isBlank_iff {b : Block} :
    b.isBlank l depth = true ↔ l.indent depth = [] ∧ b.chars l = [] := by
  simp [Block.isBlank, chars_eq_nil_iff, and_assoc]

/-- Texts on lines of their own at a depth. -/
def onLines (l : Layout) (depth : Int) (texts : List (List Char)) : List Char :=
  texts.flatMap fun cs => '\n' :: (l.indent depth ++ cs)

/-- The lines of some blocks are the texts of the blocks, each on lines of its own. -/
theorem lineChars_flatMap_linesAt (depth : Int) (parts : List Block) :
    lineChars l (parts.flatMap (Block.linesAt depth)) =
      onLines l depth (parts.map (Block.chars l)) := by
  induction parts with
  | nil => rfl
  | cons b parts ih =>
    rw [List.flatMap_cons, lineChars_append, lineChars_linesAt, ih]
    rfl

/-- What is hidden is a single element that is blank where it stands. -/
theorem hides_iff {others : List Sexp} :
    Hides l depth others ↔ ∃ s, others = [s] ∧ (block l depth s).isBlank l depth = true := by
  simp only [Hides, List.map_eq_singleton_iff, isBlank_iff, layout, String.ofList_eq_empty_iff]
  constructor
  · rintro ⟨hindent, s, rfl, hempty⟩
    exact ⟨s, rfl, hindent, hempty⟩
  · rintro ⟨s, rfl, hindent, hempty⟩
    exact ⟨hindent, s, rfl, hempty⟩

/-- The elements of a broken form behind the first have lines of their own, unless there is a
single one that is hidden. -/
theorem lineChars_elementLines (l : Layout) (depth : Int) (others : List Sexp) :
    lineChars l (elementLines l depth (others.map (block l depth))) =
      onLines l depth (if Hides l depth others then []
        else others.map fun s => (layout l depth s).toList) := by
  have hlines : lineChars l ((others.map (block l depth)).flatMap (Block.linesAt depth)) =
      onLines l depth (others.map fun s => (layout l depth s).toList) := by
    rw [lineChars_flatMap_linesAt, List.map_map]
    congr 1
    exact List.map_congr_left fun s _ => (toList_layout l depth s).symm
  by_cases hhides : Hides l depth others
  · obtain ⟨s, rfl, hblank⟩ := hides_iff.mp hhides
    rw [if_pos hhides]
    simp [elementLines, hblank, lineChars, onLines]
  · rw [if_neg hhides, ← hlines]
    unfold elementLines
    split
    · rename_i b hothers
      obtain ⟨s, rfl, rfl⟩ := List.map_eq_singleton_iff.mp hothers
      rw [if_neg, hothers, List.flatMap_singleton]
      intro hblank
      exact hhides (hides_iff.mpr ⟨s, rfl, hblank⟩)
    · rfl

/-- The text of a form that does not fit. -/
theorem toList_layout_of_not_fits {first : Sexp} {others : List Sexp}
    (h : l.fits (form (first :: others)).flatChars = false) :
    (layout l depth (form (first :: others))).toList =
      brokenChars l depth (layout l (depth + 1) first).toList
        (if Hides l (depth + 1) others then []
          else others.map fun s => (layout l (depth + 1) s).toList) := by
  rw [toList_layout, block_form, h, if_neg Bool.false_ne_true, chars_broken,
    lineChars_elementLines, ← toList_layout, brokenChars, List.append_assoc]
  rfl

/-- A form that fits is set on one line. -/
theorem toList_layout_of_fits {first : Sexp} {others : List Sexp}
    (h : l.fits (form (first :: others)).flatChars = true) :
    (layout l depth (form (first :: others))).toList = (form (first :: others)).flatChars := by
  rw [toList_layout, block_form, if_pos h, chars_single]

/-! ### The fitted text -/

mutual

/-- The number of elements that go without a line though their form is broken. -/
def hidden (l : Layout) (depth : Int) : Sexp → Nat
  | word _ => 0
  | datum _ => 0
  | form [] => 0
  | form (first :: others) =>
    if l.fits (flatChars (form (first :: others))) then 0
    else (if Hides l (depth + 1) others then 1 else 0) +
      (hidden l (depth + 1) first + hiddenAll l (depth + 1) others)
termination_by structural s => s

def hiddenAll (l : Layout) (depth : Int) : List Sexp → Nat
  | [] => 0
  | s :: rest => hidden l depth s + hiddenAll l depth rest
termination_by structural items => items

end

/-- Nothing is hidden in some elements exactly if nothing is in any of them. -/
theorem hiddenAll_eq_zero_iff {items : List Sexp} :
    hiddenAll l depth items = 0 ↔ ∀ s ∈ items, hidden l depth s = 0 := by
  induction items with
  | nil => simp [hiddenAll]
  | cons s rest ih => rw [hiddenAll, Nat.add_eq_zero_iff, ih, List.forall_mem_cons]

/-- A broken form opens in front of its first element, has the others on lines of their own, and
closes on a line of its own. -/
theorem brokenChars_eq (l : Layout) (depth : Int) (first : List Char) (others : List (List Char)) :
    brokenChars l depth first others =
      '(' :: (first ++ onLines l (depth + 1) others ++ '\n' :: (l.indent depth ++ [')'])) := rfl

/-- What the fitted texts of elements on lines of their own have more than the texts. -/
theorem length_onLines_fittedChars {others : List Sexp}
    (h : ∀ s ∈ others,
      (fittedChars l depth s).length = (layout l depth s).toList.length + hidden l depth s) :
    (onLines l depth (others.map (fittedChars l depth))).length =
      (onLines l depth (others.map fun s => (layout l depth s).toList)).length +
        hiddenAll l depth others := by
  induction others with
  | nil => rfl
  | cons s rest ih =>
    rw [List.forall_mem_cons] at h
    have ih := ih h.2
    simp only [onLines, List.map_cons, List.flatMap_cons, List.length_append, List.length_cons,
      hiddenAll, h.1] at ih ⊢
    omega

/-- Every element that goes without a line costs the text one character. -/
theorem length_fittedChars (l : Layout) (depth : Int) (s : Sexp) :
    (fittedChars l depth s).length = (layout l depth s).toList.length + hidden l depth s := by
  induction s using Sexp.induction generalizing depth with
  | word text => rw [toList_layout, block, chars_single, fittedChars, hidden, Nat.add_zero]
  | datum value => rw [toList_layout, block, chars_single, fittedChars, hidden, Nat.add_zero]
  | form items ih =>
    cases items with
    | nil => rw [toList_layout]; rfl
    | cons first others =>
      rw [List.forall_mem_cons] at ih
      have hfirst := ih.1 (depth + 1)
      have hothers := length_onLines_fittedChars fun s hs => ih.2 s hs (depth + 1)
      rw [fittedChars, hidden]
      by_cases hfits : l.fits (form (first :: others)).flatChars = true
      · rw [if_pos hfits, if_pos hfits, toList_layout_of_fits hfits, Nat.add_zero]
      · rw [if_neg hfits, if_neg hfits, toList_layout_of_not_fits (by simpa using hfits),
          brokenChars_eq, brokenChars_eq, fittedItems_eq_map]
        simp only [List.length_cons, List.length_append, hfirst, hothers]
        split
        · rename_i hhides
          obtain ⟨hindent, hempty⟩ := hhides
          obtain ⟨s, rfl, hs⟩ := List.map_eq_singleton_iff.mp hempty
          simp only [onLines, hs, hindent, List.map_cons, List.map_nil, List.flatMap_cons,
            List.flatMap_nil, String.toList_empty, List.append_nil, List.length_cons,
            List.length_nil]
          omega
        · omega

/-- Where no element goes without a line, the text is the fitted one. -/
theorem toList_layout_of_hidden_eq_zero {s : Sexp} (h : hidden l depth s = 0) :
    (layout l depth s).toList = fittedChars l depth s := by
  induction s using Sexp.induction generalizing depth with
  | word text => rw [toList_layout, block, chars_single, fittedChars]
  | datum value => rw [toList_layout, block, chars_single, fittedChars]
  | form items ih =>
    cases items with
    | nil => rw [toList_layout]; rfl
    | cons first others =>
      rw [List.forall_mem_cons] at ih
      rw [fittedChars]
      rw [hidden] at h
      by_cases hfits : l.fits (form (first :: others)).flatChars = true
      · rw [if_pos hfits, toList_layout_of_fits hfits]
      · rw [if_neg hfits] at h ⊢
        have hhides : ¬ Hides l (depth + 1) others := by
          intro hhides
          rw [if_pos hhides] at h
          omega
        have hfirst := ih.1 (by omega : hidden l (depth + 1) first = 0)
        have hothers : ∀ s ∈ others, hidden l (depth + 1) s = 0 :=
          hiddenAll_eq_zero_iff.mp (by omega)
        rw [toList_layout_of_not_fits (by simpa using hfits), if_neg hhides, hfirst,
          fittedItems_eq_map, List.map_congr_left fun s hs => ih.2 s hs (hothers s hs)]

/-- A form is set on one line with its flat text if that fits, and else broken: its first element
follows the parenthesis, and every other has a line of its own one step deeper, except that a single
one goes without if it shows no character and nothing is indented. So the text is the fitted text
exactly if no element goes without a line. A form that is set on one line is set so in every wider
layout. -/
theorem layout_form (l : Layout) (depth : Int) (first : Sexp) (others : List Sexp) :
    (l.fits (form (first :: others)).flatChars = true →
      (layout l depth (form (first :: others))).toList = (form (first :: others)).flatChars) ∧
    (l.fits (form (first :: others)).flatChars = false →
      (layout l depth (form (first :: others))).toList =
        brokenChars l depth (layout l (depth + 1) first).toList
          (if Hides l (depth + 1) others then []
            else others.map fun s => (layout l (depth + 1) s).toList)) ∧
    ((layout l depth (form (first :: others))).toList =
        fittedChars l depth (form (first :: others)) ↔
      hidden l depth (form (first :: others)) = 0) ∧
    ('\n' ∉ (layout l depth (form (first :: others))).toList → ∀ width, l.width ≤ width →
      layout { l with width } depth (form (first :: others)) =
        layout l depth (form (first :: others))) := by
  refine ⟨toList_layout_of_fits, toList_layout_of_not_fits, ⟨?_, toList_layout_of_hidden_eq_zero⟩,
    ?_⟩
  · intro htext
    have hlength := length_fittedChars l depth (form (first :: others))
    rw [← htext] at hlength
    omega
  · intro hline width hwidth
    have hfits : l.fits (form (first :: others)).flatChars = true := by
      by_contra hbroken
      rw [toList_layout_of_not_fits (by simpa using hbroken), brokenChars_eq] at hline
      exact hline (by simp)
    have hwider : Layout.fits { l with width } (form (first :: others)).flatChars = true := by
      obtain ⟨hlength, hbreak⟩ := fits_iff.mp hfits
      exact fits_iff.mpr ⟨Int.le_trans hlength hwidth, hbreak⟩
    rw [← String.toList_inj, toList_layout_of_fits hfits, toList_layout_of_fits hwider]

/-- A word without characters is given no line of its own where it is the second of two elements
and nothing is indented. -/
theorem not_forall_layout_eq_fittedChars :
    ¬ ∀ (l : Layout) (depth : Int) (first : Sexp) (others : List Sexp),
      (layout l depth (form (first :: others))).toList =
        fittedChars l depth (form (first :: others)) := by
  intro h
  have htext := h ⟨3, []⟩ 0 (word "a") [word ""]
  have hlaidOut : layout ⟨3, []⟩ 0 (form [word "a", word ""]) = "(a\n)" := by decide
  have hfitted : fittedChars ⟨3, []⟩ 0 (form [word "a", word ""]) =
      ['(', 'a', '\n', '\n', ')'] := by decide
  rw [hlaidOut, hfitted] at htext
  exact absurd htext (by decide)

end CanonicalAccess.Sexp
