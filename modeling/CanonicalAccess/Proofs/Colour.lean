import CanonicalAccess.Diagnostic.Unstyled
import CanonicalAccess.Proofs.Rendering

/-!
# Colour

Colour is only decoration: with the control sequences deleted, a coloured diagnostic is the plain
one, and each styled stretch is closed by a reset before another opens and before the text ends
(`unstyled_render`). That is for diagnostics in whose parts no control sequence starts.

A coloured text is said to show a plain one if both hold of it whatever follows. Spans show their
texts, and what is put together from texts that show others shows the others put together.
-/

set_option autoImplicit false

namespace CanonicalAccess

namespace Diagnostic

/-- A coloured text shows a plain one: deleting sequences from it leaves that, and at its end no
stretch is open, whatever follows. -/
structure Shows (colored plain : List Char) : Prop where
  unstyled : ∀ rest, unstyled (colored ++ rest) = plain ++ unstyled rest
  balanced : ∀ rest, balanced .outside (colored ++ rest) = balanced .outside rest

/-! ### Characters and control sequences -/

/-- A character that starts no control sequence stays. -/
theorem unstyled_cons {c : Char} (hc : c ≠ '\x1b') (rest : List Char) :
    unstyled (c :: rest) = c :: unstyled rest := by
  rw [Diagnostic.unstyled] <;> simp [hc]

/-- Text without control sequences stays. -/
theorem unstyled_append {cs : List Char} (hcs : '\x1b' ∉ cs) (rest : List Char) :
    unstyled (cs ++ rest) = cs ++ unstyled rest := by
  induction cs with
  | nil => rfl
  | cons c cs ih =>
    rw [List.mem_cons, not_or] at hcs
    rw [List.cons_append, unstyled_cons (Ne.symm hcs.1), ih hcs.2, List.cons_append]

/-- Outside of a stretch, text without control sequences does not matter. -/
theorem balanced_outside_append {cs : List Char} (hcs : '\x1b' ∉ cs) (rest : List Char) :
    balanced .outside (cs ++ rest) = balanced .outside rest := by
  induction cs with
  | nil => rfl
  | cons c cs ih =>
    rw [List.mem_cons, not_or] at hcs
    have hc : c ≠ '\x1b' := Ne.symm hcs.1
    rw [List.cons_append, Diagnostic.balanced, ih hcs.2] <;> simp [hc]

/-- In front of the reset that ends it, a stretch may hold any text. -/
theorem balanced_append_reset {s : Stretch} (hs : s ≠ .outside) {cs : List Char}
    (hcs : '\x1b' ∉ cs) (rest : List Char) :
    balanced s (cs ++ (ansi.reset.toList ++ rest)) = balanced .outside rest := by
  induction cs generalizing s with
  | nil =>
    cases s with
    | outside => exact absurd rfl hs
    | opening | inside => rfl
  | cons c cs ih =>
    rw [List.mem_cons, not_or] at hcs
    have hc : c ≠ '\x1b' := Ne.symm hcs.1
    have hinside := ih (s := .inside) (by decide) hcs.2
    rw [List.cons_append, Diagnostic.balanced, hinside] <;> simp [hc, hs]

/-- The sequences that open a stretch. -/
def openings : List String := [ansi.bold, ansi.red, ansi.cyan]

/-- An opening sequence is deleted. -/
theorem unstyled_opening {code : String} (h : code ∈ openings) (rest : List Char) :
    unstyled (code.toList ++ rest) = unstyled rest := by
  simp only [openings, List.mem_cons, List.not_mem_nil, or_false] at h
  rcases h with rfl | rfl | rfl <;> rfl

/-- An opening sequence opens a stretch, or adds to one that is being opened. -/
theorem balanced_opening {code : String} (h : code ∈ openings) {s : Stretch} (hs : s ≠ .inside)
    (rest : List Char) : balanced s (code.toList ++ rest) = balanced .opening rest := by
  simp only [openings, List.mem_cons, List.not_mem_nil, or_false] at h
  cases s with
  | inside => exact absurd rfl hs
  | outside | opening => rcases h with rfl | rfl | rfl <;> rfl

/-- Opening sequences are deleted, however many there are. -/
theorem unstyled_openings {codes : List String} (h : ∀ code ∈ codes, code ∈ openings)
    (rest : List Char) : unstyled (codes.flatMap String.toList ++ rest) = unstyled rest := by
  induction codes with
  | nil => rfl
  | cons code codes ih =>
    rw [List.forall_mem_cons] at h
    rw [List.flatMap_cons, List.append_assoc, unstyled_opening h.1, ih h.2]

/-- Several sequences open one stretch. -/
theorem balanced_openings {codes : List String} (h : ∀ code ∈ codes, code ∈ openings)
    (hne : codes ≠ []) {s : Stretch} (hs : s ≠ .inside) (rest : List Char) :
    balanced s (codes.flatMap String.toList ++ rest) = balanced .opening rest := by
  induction codes generalizing s with
  | nil => exact absurd rfl hne
  | cons code codes ih =>
    rw [List.forall_mem_cons] at h
    rw [List.flatMap_cons, List.append_assoc, balanced_opening h.1 hs]
    cases codes with
    | nil => rfl
    | cons next codes => exact ih h.2 (List.cons_ne_nil _ _) (by decide)

/-! ### Texts put together -/

namespace Shows

/-- No text shows no text. -/
theorem nil : Shows [] [] := ⟨fun _ => rfl, fun _ => rfl⟩

/-- Texts one behind the other show what each of them shows. -/
theorem append {cs ds cs' ds' : List Char} (h : Shows cs ds) (h' : Shows cs' ds') :
    Shows (cs ++ cs') (ds ++ ds') where
  unstyled := by
    intro rest
    rw [List.append_assoc, h.unstyled, h'.unstyled, List.append_assoc]
  balanced := by
    intro rest
    rw [List.append_assoc, h.balanced, h'.balanced]

/-- Text without control sequences shows itself. -/
theorem of_unescaped {cs : List Char} (hcs : '\x1b' ∉ cs) : Shows cs cs :=
  ⟨unstyled_append hcs, balanced_outside_append hcs⟩

variable {α : Type} {colored plain : α → List Char}

/-- Texts show together what each shows. -/
theorem flatMap {xs : List α} (h : ∀ x ∈ xs, Shows (colored x) (plain x)) :
    Shows (xs.flatMap colored) (xs.flatMap plain) := by
  induction xs with
  | nil => exact .nil
  | cons x xs ih =>
    rw [List.forall_mem_cons] at h
    exact h.1.append (ih h.2)

/-- Texts on lines of their own show the texts that they show, line by line. -/
theorem lines {xs : List α} (h : ∀ x ∈ xs, Shows (colored x) (plain x)) :
    Shows (['\n'].intercalate (xs.map colored)) (['\n'].intercalate (xs.map plain)) := by
  have hbreak : Shows ['\n'] ['\n'] := .of_unescaped (by decide)
  induction xs with
  | nil => exact .nil
  | cons x xs ih =>
    rw [List.forall_mem_cons] at h
    cases xs with
    | nil => simpa using h.1
    | cons next xs =>
      simp only [List.map_cons, List.intercalate_cons_cons] at ih ⊢
      exact (h.1.append hbreak).append (ih h.2)

/-- Sequences that open a stretch, a text and a reset show the text. -/
theorem styled {codes : List String} (hcodes : ∀ code ∈ codes, code ∈ openings) (hne : codes ≠ [])
    {cs : List Char} (hcs : '\x1b' ∉ cs) :
    Shows (codes.flatMap String.toList ++ (cs ++ ansi.reset.toList)) cs where
  unstyled := by
    intro rest
    rw [List.append_assoc, List.append_assoc, unstyled_openings hcodes, unstyled_append hcs]
    rfl
  balanced := by
    intro rest
    rw [List.append_assoc, List.append_assoc, balanced_openings hcodes hne (by decide),
      balanced_append_reset (by decide) hcs]

end Shows

/-! ### Spans and lines -/

/-- Text without the character that starts a control sequence. -/
def Unescaped (text : String) : Prop := '\x1b' ∉ text.toList

instance (text : String) : Decidable (Unescaped text) :=
  inferInstanceAs (Decidable ('\x1b' ∉ text.toList))

/-- Two texts without control sequences have none together. -/
theorem Unescaped.append {s t : String} (hs : Unescaped s) (ht : Unescaped t) :
    Unescaped (s ++ t) := by
  simp only [Unescaped, String.toList_append, List.mem_append, not_or] at hs ht ⊢
  exact ⟨hs, ht⟩

end Diagnostic

open Diagnostic (openings Unescaped Shows)

/-- A span whose sequences open stretches and whose text has none. -/
structure Span.Proper (s : Span) : Prop where
  codes : ∀ code ∈ s.codes, code ∈ openings
  text : Unescaped s.text

/-- A span without sequences is proper if its text has none. -/
theorem Span.proper_of_unescaped {text : String} (h : Unescaped text) : Span.Proper ⟨[], text⟩ :=
  ⟨List.forall_mem_nil _, h⟩

/-- With colour a span shows what it is without. -/
theorem Span.Proper.shows {s : Span} (h : s.Proper) :
    Shows (s.render true).toList (s.render false).toList := by
  cases hcodes : s.codes with
  | nil =>
    have hplain : s.render true = s.render false := by simp [Span.render, hcodes]
    rw [hplain]
    exact .of_unescaped h.text
  | cons code codes =>
    -- No sequence is empty, so they are not taken for none.
    have hcode : code ≠ "" := by
      rintro rfl
      exact absurd (h.codes "" (by simp [hcodes])) (by decide)
    have hne : (String.join s.codes).isEmpty = false := by
      simp [hcodes, hcode]
    have hstyled := Shows.styled h.codes (by simp [hcodes]) h.text
    simpa [Span.render, hne, String.toList_join] using hstyled

/-- And so does a line. -/
theorem Span.shows_renderLine {line : List Span} (h : ∀ s ∈ line, s.Proper) :
    Shows (renderLine true line).toList (renderLine false line).toList := by
  rw [renderLine, renderLine, String.toList_join, String.toList_join, List.flatMap_map,
    List.flatMap_map]
  exact .flatMap fun s hs => (h s hs).shows

namespace Diagnostic

/-- A diagnostic whose parts, those that are there, hold no control sequences. -/
structure Plain (d : Diagnostic) : Prop where
  message : Unescaped d.message
  code : ∀ text ∈ d.code, Unescaped text
  subject : ∀ text ∈ d.subject, Unescaped text
  note : ∀ text ∈ d.note, Unescaped text
  help : ∀ text ∈ d.help, Unescaped text

/-- The lines of a text hold no characters but its own. -/
theorem not_mem_of_mem_splitLines {x : Char} {cs : List Char} (h : x ∉ cs) :
    ∀ line ∈ splitLines cs, x ∉ line := by
  fun_induction splitLines cs with
  | case1 => simp
  | case2 rest ih =>
    rw [List.mem_cons, not_or] at h
    exact List.forall_mem_cons.mpr ⟨List.not_mem_nil, ih h.2⟩
  | case3 c rest _ first lines hlines ih =>
    rw [List.mem_cons, not_or] at h
    have hrest := ih h.2
    rw [hlines, List.forall_mem_cons] at hrest
    rw [List.forall_mem_cons, List.mem_cons, not_or]
    exact ⟨⟨h.1, hrest.1⟩, hrest.2⟩
  | case4 c rest _ hnone _ => exact absurd hnone (splitLines_ne_nil rest)

/-- A part that is shown is one that is there. -/
theorem mem_of_present {part : Option String} {text : String} (h : present part = some text) :
    text ∈ part := (Option.filter_eq_some_iff.mp h).1

/-- The spans of a line of the subject are proper if the line is. -/
theorem proper_of_mem_subjectLine {line : List Char} (h : '\x1b' ∉ line) :
    ∀ s ∈ subjectLine line, s.Proper := by
  have hline : Unescaped (String.ofList line) := by rwa [Unescaped, String.toList_ofList]
  simp only [subjectLine, List.forall_mem_cons, List.not_mem_nil, false_imp_iff, implies_true,
    and_true]
  exact ⟨⟨by simp [openings], by decide⟩, Span.proper_of_unescaped hline⟩

/-- The spans of a remark are proper if its word and its text are. -/
theorem proper_of_mem_remark {sort text : String} (hsort : Unescaped sort) (h : Unescaped text) :
    ∀ s ∈ remark sort text, s.Proper := by
  simp only [remark, List.forall_mem_cons, List.not_mem_nil, false_imp_iff, implies_true, and_true]
  exact ⟨⟨by simp [openings], by decide⟩, ⟨by simp [openings], hsort.append (by decide)⟩,
    Span.proper_of_unescaped h⟩

variable {d : Diagnostic}

/-- The spans of the headline are proper if the code and the message are. -/
theorem proper_of_mem_headline (h : d.Plain) : ∀ s ∈ d.headline, s.Proper := by
  have hmessage : Unescaped (": " ++ d.message) := .append (by decide) h.message
  simp only [headline, List.forall_mem_cons, List.not_mem_nil, false_imp_iff, implies_true,
    and_true]
  refine ⟨⟨by simp [openings], ?_⟩, by simp [openings], hmessage⟩
  cases hcode : present d.code with
  | none => decide
  | some code =>
    have htext := h.code code (mem_of_present hcode)
    have hinner : Unescaped ("[" ++ code) := .append (by decide) htext
    exact .append (by decide) (hinner.append (by decide))

/-- All lines of a plain diagnostic are made of proper spans. -/
theorem proper_of_mem_lines (h : d.Plain) : ∀ line ∈ d.lines, ∀ s ∈ line, s.Proper := by
  intro line hline
  simp only [lines, List.mem_cons, List.mem_append, Option.mem_toList, Option.map_eq_some_iff]
    at hline
  rcases hline with rfl | (hsubject | ⟨note, hnote, rfl⟩) | ⟨help, hhelp, rfl⟩
  · exact proper_of_mem_headline h
  · split at hsubject
    · rename_i subject hpresent
      obtain ⟨cs, hcs, rfl⟩ := List.mem_map.mp hsubject
      have htext := h.subject subject (mem_of_present hpresent)
      exact proper_of_mem_subjectLine (not_mem_of_mem_splitLines htext cs hcs)
    · cases hsubject
  · exact proper_of_mem_remark (by decide) (h.note note (mem_of_present hnote))
  · exact proper_of_mem_remark (by decide) (h.help help (mem_of_present hhelp))

end Diagnostic

/-- With the control sequences deleted, the coloured text of a diagnostic is the plain one; and in
the coloured text every styled stretch is closed by a reset before the next one opens and before the
end. -/
theorem unstyled_render {d : Diagnostic} (h : d.Plain) :
    Diagnostic.unstyled (d.render true).toList = (d.render false).toList ∧
      Diagnostic.balanced .outside (d.render true).toList = true := by
  have hshows : Shows (d.render true).toList (d.render false).toList := by
    rw [Diagnostic.render, Diagnostic.render, String.toList_intercalate, String.toList_intercalate,
      List.map_map, List.map_map]
    exact .lines fun line hline =>
      Span.shows_renderLine (Diagnostic.proper_of_mem_lines h line hline)
  -- At the end of the text nothing follows.
  have hunstyled := hshows.unstyled []
  have hbalanced := hshows.balanced []
  rw [List.append_nil] at hunstyled hbalanced
  rw [hunstyled, hbalanced]
  exact ⟨List.append_nil _, rfl⟩

/-- A diagnostic with a subject of two lines, one of them empty, and an empty note. -/
def Sample.diagnostic : Diagnostic :=
  ⟨"`get_X` is not\na property accessor", some "E0601", some "[1m\n", some "[0m", some ""⟩

/-- A diagnostic with all its parts is coloured, and without the sequences its text is the plain
one. -/
theorem unstyled_render_sample :
    Sample.diagnostic.Plain ∧
      Diagnostic.unstyled (Sample.diagnostic.render true).toList =
        (Sample.diagnostic.render false).toList ∧
      Diagnostic.balanced .outside (Sample.diagnostic.render true).toList = true ∧
      Sample.diagnostic.render true ≠ Sample.diagnostic.render false := by
  have h : Sample.diagnostic.Plain := ⟨by decide, by decide, by decide, by decide, by decide⟩
  obtain ⟨hunstyled, hbalanced⟩ := unstyled_render h
  exact ⟨h, hunstyled, hbalanced, by decide⟩

end CanonicalAccess
