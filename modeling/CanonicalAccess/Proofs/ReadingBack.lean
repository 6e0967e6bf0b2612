import CanonicalAccess.Proofs.Tokens

/-!
# Texts read back

The text of an S-expression is read back as the very S-expression it was made from, in every layout
whose steps are blank (`read?_layout`). The text is cut into the pieces of the S-expression, and
assembling these puts it on the stack. So where lines are broken and how far they are indented makes
no difference to what is read, and different S-expressions never look alike.

This is for S-expressions of integers, texts, and words that can be told from everything else.
-/

set_option autoImplicit false

namespace CanonicalAccess.Sexp

/-- S-expressions that can be read back: their data are texts and integers, and their words hold at
least one character, none that ends a word, and do not read as integers. -/
inductive Plain : Sexp → Prop where
  | word (text : String) (nonempty : text.toList ≠ [])
      (unbroken : ∀ c ∈ text.toList, endsWord c = false) (named : integer? text.toList = none) :
      Plain (.word text)
  | text (s : String) : Plain (.datum (.str s))
  | integer (n : Int) : Plain (.datum (.int n))
  | form (items : List Sexp) (plain : ∀ s ∈ items, Plain s) : Plain (.form items)

/-- A plain S-expression can be read back. -/
theorem Plain.readable {s : Sexp} (h : s.Plain) : s.readable = true := by
  induction h with
  | word text nonempty unbroken => exact isWord_iff.mpr ⟨nonempty, unbroken⟩
  | text s => rfl
  | integer n => rfl
  | form items _ ih => exact readableAll_iff.mpr ih

/-- Pieces of S-expressions that are each put on the innermost open form are put there in turn. -/
theorem assemble_piecesAll {items : List Sexp}
    (h : ∀ s ∈ items, ∀ done stack rest,
      assemble (done :: stack) (s.pieces ++ rest) = assemble ((s :: done) :: stack) rest)
    (done : List Sexp) (stack : List (List Sexp)) (rest : List Token) :
    assemble (done :: stack) (piecesAll items ++ rest) =
      assemble ((items.reverse ++ done) :: stack) rest := by
  induction items generalizing done with
  | nil => rfl
  | cons s items ih =>
    rw [List.forall_mem_cons] at h
    rw [piecesAll, List.append_assoc, h.1, ih h.2, List.reverse_cons, List.append_assoc]
    rfl

/-- Assembling the pieces of an S-expression puts it on the innermost form that is open, whatever
comes behind them. -/
theorem Plain.assemble_pieces {s : Sexp} (h : s.Plain) (done : List Sexp)
    (stack : List (List Sexp)) (rest : List Token) :
    assemble (done :: stack) (s.pieces ++ rest) = assemble ((s :: done) :: stack) rest := by
  induction h generalizing done stack rest with
  | word text _ _ named =>
    have hword : ofBare text.toList = .word text := by simp [ofBare, named]
    rw [pieces, List.singleton_append, assemble, hword]
  | text s => rw [pieces, List.singleton_append, assemble, String.ofList_toList]
  | integer n =>
    have hinteger : ofBare (datumChars (.int n)) = .datum (.int n) := by
      simp only [ofBare, datumChars, Value.literalChars, integer?_toString]
    have hpieces : (Sexp.datum (.int n)).pieces = [.bare (datumChars (.int n))] := rfl
    rw [hpieces, List.singleton_append, assemble, hinteger]
  | form items _ ih =>
    rw [pieces, List.cons_append, assemble, List.append_assoc, assemble_piecesAll ih,
      List.singleton_append, assemble, List.append_nil, List.reverse_reverse]

/-- A plain S-expression is read back from its text, at whatever depth and in whatever layout with
blank steps it is set; and no other plain S-expression has that text, be it in another layout. -/
theorem read?_layout {l : Layout} (blank : l.Blank) {s : Sexp} (plain : s.Plain) (depth : Int) :
    read? (layout l depth s).toList = some s ∧
      ∀ l' : Layout, l'.Blank → ∀ (depth' : Int) (s' : Sexp), s'.Plain →
        layout l' depth' s' = layout l depth s → s' = s := by
  have hread : ∀ {l : Layout}, l.Blank → ∀ {s : Sexp}, s.Plain → ∀ depth,
      read? (layout l depth s).toList = some s := by
    intro l blank s plain depth
    have hassembled : assemble [[]] s.pieces = some [s] := by
      have hstack := plain.assemble_pieces [] [] []
      rwa [List.append_nil] at hstack
    simp [read?, tokens_layout blank plain.readable depth, hassembled]
  refine ⟨hread blank plain depth, ?_⟩
  intro l' blank' depth' s' plain' htext
  have hsame := hread blank' plain' depth'
  rw [htext, hread blank plain depth] at hsame
  exact (Option.some.inj hsame).symm

namespace Sample

/-- A form with a text that looks like the end of one, beside an empty form and a nested one. -/
def nested : Sexp :=
  .form [.word "-x", .datum (.str "a\n\") (\\"), .datum (.int (-3)), .form [],
    .form [.form [.datum (.str "")], .word "7b"]]

/-- A layout that breaks every form, and indents by a tabulator and a blank. -/
def narrow : Layout := ⟨0, ['\t', ' ']⟩

end Sample

/-- The nested form is read back from its narrow text, and nothing else has that text in the
standard layout. -/
theorem read?_layout_nested :
    Sample.narrow.Blank ∧ Sample.nested.Plain ∧
      read? (layout Sample.narrow (-1) Sample.nested).toList = some Sample.nested ∧
      ∀ s' : Sexp, s'.Plain → s'.pretty = layout Sample.narrow (-1) Sample.nested →
        s' = Sample.nested := by
  have blank : Sample.narrow.Blank := by
    intro c hc
    simp only [Sample.narrow, List.mem_cons, List.not_mem_nil, or_false] at hc
    rcases hc with rfl | rfl <;> decide
  have plain : Sample.nested.Plain := by
    refine .form _ ?_
    simp only [List.forall_mem_cons, List.not_mem_nil, false_imp_iff, implies_true, and_true]
    have hword : ∀ text ∈ ["-x", "7b"], (Sexp.word text).Plain := by
      intro text htext
      simp only [List.mem_cons, List.not_mem_nil, or_false] at htext
      have hwords : isWord text.toList = true ∧ integer? text.toList = none := by
        rcases htext with rfl | rfl <;> decide
      obtain ⟨nonempty, unbroken⟩ := isWord_iff.mp hwords.1
      exact .word text nonempty unbroken hwords.2
    refine ⟨hword "-x" (by simp), .text _, .integer _, .form _ (by simp), .form _ ?_⟩
    simp only [List.forall_mem_cons, List.not_mem_nil, false_imp_iff, implies_true, and_true]
    exact ⟨.form _ (by simpa using Plain.text ""), hword "7b" (by simp)⟩
  obtain ⟨hread, honly⟩ := read?_layout blank plain (-1)
  exact ⟨blank, plain, hread, fun s' plain' => honly .standard Layout.blank_standard 0 s' plain'⟩

end CanonicalAccess.Sexp
