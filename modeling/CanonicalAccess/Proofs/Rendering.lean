import CanonicalAccess.Proofs.Display
import CanonicalAccess.Proofs.FirstFault
import CanonicalAccess.Proofs.Spelling
import CanonicalAccess.Proofs.Tokens
import CanonicalAccess.Violation

/-!
# Refused calls on display

What a normalizer refuses is an accessor call of the tree, as it stands there, whatever its parts
have become by then and whatever else may be missing from the tree (`refused_of_accept`). Such a
call can be written whenever the tree declares nothing but parameters, and the report shows it as it
was (`text_of_refused`).

The report does fail where the error stream is asked whether it is a terminal and raises something,
as it does once it is closed; and it is coloured where the documented rule has no colour, on a
terminal if the second setting is some word of no meaning (`not_forall_text`). Nothing else makes it
fail, and with settings of the documented kind the rule is kept.
-/

set_option autoImplicit false

namespace CanonicalAccess

/-! ### What is refused -/

/-- Computations in order fail as one of them does. -/
theorem Transform.exists_of_inOrder_error {α : Type} {xs : List (Transform α)} {fault : Fault}
    {w w' : Work} (h : inOrder xs w = .error fault w') :
    ∃ x ∈ xs, ∃ w₁, x w₁ = .error fault w' := by
  induction xs generalizing w with
  | nil => cases h
  | cons x xs ih =>
    rw [inOrder, bind_eq_error_iff] at h
    rcases h with hx | ⟨a, w₁, -, h⟩
    · exact ⟨x, List.mem_cons_self, w, hx⟩
    · rw [bind_eq_error_iff] at h
      rcases h with hxs | ⟨as, w₂, -, hpure⟩
      · obtain ⟨y, hy, hrun⟩ := ih hxs
        exact ⟨y, List.mem_cons_of_mem _ hy, hrun⟩
      · cases hpure

namespace Transformer

variable {f : Transformer} {e : Expr} {fault : Fault} {w w' : Work}

/-- The visits of the children of a node fail as one of the children does. -/
theorem exists_child_of_visits_error (h : Transform.inOrder (f.visits e) w = .error fault w') :
    ∃ c ∈ e.children, ∃ w₁, f.accept c w₁ = .error fault w' := by
  have haccept : ∀ c w₁, f.apply c w₁ = .error fault w' → f.accept c w₁ = .error fault w' := by
    intro c w₁ happly
    unfold apply at happly
    split at happly
    · cases happly
    · exact happly
  obtain ⟨x, hx, w₁, hrun⟩ := Transform.exists_of_inOrder_error h
  unfold visits at hx
  cases hchildren : e.children with
  | nil =>
    rw [hchildren] at hx
    cases hx
  | cons c cs =>
    rw [hchildren] at hx
    rcases List.mem_cons.mp hx with rfl | hx
    · refine ⟨c, List.mem_cons_self, w₁, ?_⟩
      split at hrun
      · exact haccept c w₁ hrun
      · exact hrun
    · obtain ⟨d, hd, rfl⟩ := List.mem_map.mp hx
      exact ⟨d, List.mem_cons_of_mem _ hd, w₁, hrun⟩

end Transformer

namespace Normalization

variable {metadata : Metadata} {refusal : Refusal} {w w' : Work}

/-- Where the metadata does not refuse by itself, what is refused in settling a call is the call,
for the reason that the answer to its question gives. -/
theorem refused_of_settle (own : ∀ asked q, metadata.answer asked q ≠ .error (.refused refusal))
    {l : Label} {receiver receiver' : Expr} {m : Method} {arguments arguments' : List Expr}
    {a : Access} {name : String} (shape : m.access? arguments.length = some (a, name))
    (h : settle metadata (.call l receiver (.method m) arguments) m a name receiver' arguments' w =
      .error (.refused refusal) w') :
    refusal.call = .call l receiver (.method m) arguments ∧
      refusal.Due (metadata.answer w.asked) := by
  cases query : m.query? a name with
  | none =>
    simp only [settle, query] at h
    cases h
  | some q =>
    rw [settle_apply query] at h
    cases answer : metadata.answer w.asked q with
    | error fault =>
      rw [answer] at h
      cases h
      exact absurd answer (own _ _)
    | ok found =>
      rw [answer] at h
      cases found with
      | absent =>
        cases h
        exact ⟨rfl, .unanswered shape query answer⟩
      | method m' => cases h
      | property p =>
        by_cases backed : p.accessor a.role = .method m
        · simp only [bind, Except.bind, backing, if_pos backed] at h
          cases h
        · simp only [bind, Except.bind, backing, if_neg backed] at h
          cases h
          exact ⟨rfl, .notAccessor shape query answer backed⟩

/-- What is refused in concluding at a node is the node, and it is an accessor call. -/
theorem refused_of_conclude (own : ∀ asked q, metadata.answer asked q ≠ .error (.refused refusal))
    {e : Expr} {cs : List Expr} (hlen : cs.length = e.children.length)
    (h : (normalizer metadata).conclude e cs w = .error (.refused refusal) w') :
    refusal.call = e ∧ e.isAccessorShaped = true ∧ refusal.Due (metadata.answer w.asked) := by
  cases hshaped : e.isAccessorShaped with
  | true =>
    obtain ⟨l, receiver, m, as, receiver', as', a, name, rfl, rfl, hlen, shape⟩ :=
      Expr.exists_access hlen hshaped
    rw [conclude_of_access hlen shape] at h
    obtain ⟨hcall, due⟩ := refused_of_settle own shape h
    exact ⟨hcall, rfl, due⟩
  | false =>
    exfalso
    by_cases hm : e.callsMethod = true
    · rw [conclude_of_not_shaped hlen hm hshaped] at h
      obtain ⟨r, n, hrefit, -, -⟩ := Expr.exists_refit e cs w
      rw [hrefit] at h
      cases h
    · -- A call to something that is no method fails, but it is not refused.
      induction e, cs, hlen using Expr.children_cases with
      | call l r m as r' as' hlen =>
        cases m with
        | absent | property p => cases h
        | method m => exact hm rfl
      | _ => exact hm rfl

/-- What is refused on a walk is an accessor call of the tree. -/
theorem refused_of_accept (own : ∀ asked q, metadata.answer asked q ≠ .error (.refused refusal))
    {e : Expr} (h : (normalizer metadata).accept e w = .error (.refused refusal) w') :
    refusal.call ∈ e.accessorCalls ∧ ∃ asked, refusal.Due (metadata.answer asked) := by
  induction e using Expr.children_induction generalizing w with
  | step e ih =>
    cases hk : e.kind? with
    | none =>
      cases e with
      | absent | bare l => cases h
      | _ => cases hk
    | some k =>
      have henter : (normalizer metadata).enter k = pure () := rfl
      rw [Transformer.accept_eq_conclude _ hk, henter, pure_bind, Transform.bind_eq_error_iff] at h
      rw [Expr.accessorCalls_eq_flatMap_children, List.mem_append, List.mem_flatMap]
      rcases h with hvisits | ⟨cs, w₁, hvisits, hconclude⟩
      · obtain ⟨c, hc, w₂, haccept⟩ := Transformer.exists_child_of_visits_error hvisits
        obtain ⟨hmem, hdue⟩ := ih c hc haccept
        exact ⟨.inl ⟨c, hc, hmem⟩, hdue⟩
      · have hlen := Transform.length_of_inOrder hvisits
        rw [Transformer.length_visits] at hlen
        obtain ⟨hcall, hshaped, due⟩ := refused_of_conclude own hlen hconclude
        rw [if_pos hshaped, hcall, List.mem_singleton]
        exact ⟨.inr rfl, _, due⟩

end Normalization

/-! ### Lines -/

namespace Diagnostic

/-- Every text has a line. -/
theorem splitLines_ne_nil (cs : List Char) : splitLines cs ≠ [] := by
  fun_cases splitLines cs <;> simp_all

/-- The lines of a text are put together again by line breaks. -/
theorem intercalate_splitLines (cs : List Char) : ['\n'].intercalate (splitLines cs) = cs := by
  fun_induction splitLines cs with
  | case1 => rfl
  | case2 rest ih =>
    rw [List.intercalate_cons_of_ne_nil (splitLines_ne_nil rest), ih]
    rfl
  | case3 c rest _ line lines hlines ih =>
    rw [hlines] at ih
    rw [← ih]
    cases lines <;> simp
  | case4 c rest _ hnone _ => exact absurd hnone (splitLines_ne_nil rest)

/-- No line has a line break. -/
theorem not_mem_splitLines (cs : List Char) : ∀ line ∈ splitLines cs, '\n' ∉ line := by
  fun_induction splitLines cs with
  | case1 => simp
  | case2 rest ih => exact List.forall_mem_cons.mpr ⟨List.not_mem_nil, ih⟩
  | case3 c rest hc first lines hlines ih =>
    rw [hlines, List.forall_mem_cons] at ih
    rw [List.forall_mem_cons, List.mem_cons, not_or]
    exact ⟨⟨fun heq => hc heq.symm, ih.1⟩, ih.2⟩
  | case4 c rest _ hnone _ => exact absurd hnone (splitLines_ne_nil rest)

/-- A text is put together again of its lines. -/
theorem intercalate_lines (text : String) :
    "\n".intercalate ((splitLines text.toList).map String.ofList) = text := by
  have hback : String.toList ∘ String.ofList = id := funext fun cs => String.toList_ofList
  rw [← String.toList_inj, String.toList_intercalate, List.map_map, hback, List.map_id]
  exact intercalate_splitLines text.toList

/-- A part that is not empty is shown. -/
theorem present_of_ne {part : String} (h : part ≠ "") : present (some part) = some part := by
  simp [present, h]

/-- What is shown of a part that is not empty is the part. -/
theorem present_eq_self {part : Option String} (h : part ≠ some "") : present part = part := by
  cases part with
  | none => rfl
  | some text => exact present_of_ne fun heq => h (congrArg some heq)

/-- Without colour a line is the text of its spans. -/
theorem renderLine_false (line : List Span) :
    Span.renderLine false line = String.join (line.map Span.text) := by
  rw [Span.renderLine]
  congr 1

/-- Without colour the headline is the word, the code in brackets and the message. -/
theorem renderLine_headline {d : Diagnostic} {code : String} (h : present d.code = some code) :
    Span.renderLine false d.headline = "error[" ++ code ++ "]: " ++ d.message := by
  have hopening : ∀ rest, "error" ++ ("[" ++ rest) = "error[" ++ rest :=
    fun rest => String.append_assoc.symm
  have hclosing : ∀ rest, "]" ++ (": " ++ rest) = "]: " ++ rest :=
    fun rest => String.append_assoc.symm
  rw [renderLine_false]
  simp only [headline, h, List.map_cons, List.map_nil, String.join, List.foldl_cons, List.foldl_nil,
    String.empty_append, String.append_assoc, hopening, hclosing]

/-- Without colour a line of the subject stands behind its margin. -/
theorem renderLine_subjectLine (line : List Char) :
    Span.renderLine false (subjectLine line) = "  | " ++ String.ofList line := by
  rw [renderLine_false]
  rfl

/-- Without colour a remark is its word and its text behind a margin. -/
theorem renderLine_remark (sort text : String) :
    Span.renderLine false (remark sort text) = "  = " ++ sort ++ ": " ++ text := by
  rw [renderLine_false]
  simp [String.join, remark, notePrefix, Span.plain, String.append_assoc]

/-- Without colour the lines of a diagnostic are those of its parts, behind a margin. -/
theorem render_false {message code subject note : String} {help : Option String} (hcode : code ≠ "")
    (hsubject : subject ≠ "") (hnote : note ≠ "") (hhelp : help ≠ some "") :
    render false ⟨message, some code, some subject, help, some note⟩ =
      "\n".intercalate (("error[" ++ code ++ "]: " ++ message) ::
        ((splitLines subject.toList).map (fun line => "  | " ++ String.ofList line) ++
          ("  = note: " ++ note) :: (help.map fun advice => "  = help: " ++ advice).toList)) := by
  have hhelpLine : (help.map (remark "help")).toList.map (Span.renderLine false) =
      (help.map fun advice => "  = help: " ++ advice).toList := by
    cases help with
    | none => rfl
    | some advice => exact congrArg (fun line => [line]) (renderLine_remark "help" advice)
  have hnoteLine : Span.renderLine false (remark "note" note) = "  = note: " ++ note :=
    renderLine_remark "note" note
  have hsubjectLines : (splitLines subject.toList).map (Span.renderLine false ∘ subjectLine) =
      (splitLines subject.toList).map fun line => "  | " ++ String.ofList line :=
    List.map_congr_left fun line _ => renderLine_subjectLine line
  rw [render, lines, List.map_cons, renderLine_headline (present_of_ne hcode)]
  simp only [present_of_ne hsubject, present_of_ne hnote, present_eq_self hhelp, Option.map_some,
    Option.toList_some, List.map_append, List.map_map, List.map_cons, List.append_assoc,
    List.singleton_append, hsubjectLines, hnoteLine, hhelpLine]

/-- The text of a diagnostic begins with its headline. -/
theorem exists_render_eq (d : Diagnostic) (color : Bool) :
    ∃ rest, d.render color = Span.renderLine color d.headline ++ rest := by
  rw [render, lines, List.map_cons]
  generalize List.map (Span.renderLine color) _ = others
  cases others with
  | nil => exact ⟨"", by simp⟩
  | cons line others =>
    refine ⟨"\n" ++ "\n".intercalate (line :: others), ?_⟩
    rw [← String.toList_inj]
    simp [String.toList_intercalate]

/-- With colour the text differs from the one without: it begins with a control sequence. -/
theorem render_true_ne (d : Diagnostic) : d.render true ≠ d.render false := by
  have hcoloured : ∃ cs, (d.render true).toList = '\x1b' :: cs := by
    obtain ⟨rest, hrest⟩ := d.exists_render_eq true
    simp [hrest, Span.renderLine, headline, Span.render, ansi, String.join]
  have hplain : ∃ cs, (d.render false).toList = 'e' :: cs := by
    obtain ⟨rest, hrest⟩ := d.exists_render_eq false
    simp [hrest, Span.renderLine, headline, Span.render, String.join]
  obtain ⟨cs, hcs⟩ := hcoloured
  obtain ⟨cs', hcs'⟩ := hplain
  intro heq
  rw [heq, hcs'] at hcs
  cases hcs

end Diagnostic

/-! ### The report of a refusal -/

/-- There is something to say of every question without an answer. -/
theorem Query.unansweredNote_ne_empty (q : Query) : q.unansweredNote ≠ "" := by
  fun_cases unansweredNote q <;> simp

namespace Refusal

variable (refusal : Refusal)

/-- Every refusal has a note. -/
theorem note_ne_empty : refusal.note ≠ "" := by
  obtain ⟨call, method, reason⟩ := refusal
  cases reason with
  | unanswered q => exact q.unansweredNote_ne_empty
  | notAccessor p role => simp [note]

/-- Advice is not empty where it is given. -/
theorem help?_ne_empty : refusal.help? ≠ some "" := by
  obtain ⟨call, method, reason⟩ := refusal
  cases reason with
  | unanswered q => simp [help?]
  | notAccessor p role => simp [help?]

/-- The lines of the report of a refusal that shows its call in some lines. There is advice exactly
if a property was found. -/
def reportLines (shown : List String) : List String :=
  ("error[E0601]: " ++ refusal.message) ::
    (shown.map (fun line => "  | " ++ line) ++
      ("  = note: " ++ refusal.note) ::
        match refusal.reason with
        | .unanswered _ => []
        | .notAccessor _ _ =>
          ["  = help: hand-written methods named like accessors cannot be normalized"])

/-- A refusal whose call has a text is reported in a diagnostic with its lines, those of the text
among them. -/
theorem exists_diagnostic {s : String} (hs : refusal.call.serialize false = .ok s) (hne : s ≠ "")
    (present : refusal.call.isAbsent = false) :
    ∃ d, refusal.violation.diagnostic = .ok d ∧
      d.render false = "\n".intercalate
        (refusal.reportLines ((Diagnostic.splitLines s.toList).map String.ofList)) := by
  have hdiagnostic : refusal.violation.diagnostic =
      .ok ⟨refusal.message, some violationCode, some s, refusal.help?, some refusal.note⟩ := by
    have hnode : refusal.violation.node = refusal.call := rfl
    rw [Violation.diagnostic, hnode, present, hs]
    rfl
  have hheadline : "error[" ++ violationCode ++ "]: " = "error[E0601]: " := rfl
  have hhelp : (refusal.help?.map fun advice => "  = help: " ++ advice).toList =
      match refusal.reason with
      | .unanswered _ => []
      | .notAccessor _ _ =>
        ["  = help: hand-written methods named like accessors cannot be normalized"] := by
    unfold help?
    cases refusal.reason <;> rfl
  refine ⟨_, hdiagnostic, ?_⟩
  rw [Diagnostic.render_false (by decide) hne refusal.note_ne_empty refusal.help?_ne_empty,
    hheadline, hhelp, reportLines, List.map_map]
  rfl

end Refusal

/-- A violation with a diagnostic is shown with colour or without as soon as it can be told which,
and otherwise what stands in the way is raised. -/
theorem Violation.text_eq {ε : Type} {v : Violation} {d : Diagnostic} (h : v.diagnostic = .ok d)
    (display : Display ε) :
    v.text display = (display.useColor.mapError .inr).map fun color => d.render color := by
  rw [text, h]
  cases display.useColor <;> rfl

/-- Such a violation cannot be shown exactly if the settings leave it open whether colour is shown
and the error stream raises something. -/
theorem Violation.text_eq_error_iff {ε : Type} {v : Violation} {d : Diagnostic}
    (h : v.diagnostic = .ok d) (display : Display ε) (fault : Fault ⊕ ε) :
    v.text display = .error fault ↔ display.setting? = none ∧
      ∃ raised, display.terminal = some (.error raised) ∧ fault = .inr raised := by
  have hraised : v.text display = .error fault ↔
      ∃ raised, display.useColor = .error raised ∧ fault = .inr raised := by
    rw [text_eq h]
    cases display.useColor with
    | ok color => exact ⟨nofun, fun ⟨_, hraised, _⟩ => nomatch hraised⟩
    | error raised =>
      constructor
      · intro hfault
        cases hfault
        exact ⟨raised, rfl, rfl⟩
      · rintro ⟨_, ⟨⟩, rfl⟩
        rfl
  simp only [hraised, Display.useColor_eq_error_iff, and_assoc, exists_and_left]

/-- Whichever way a form is set, its text begins with a parenthesis. -/
theorem Sexp.pretty_form_ne_empty (items : List Sexp) : (form items).pretty ≠ "" := by
  have hhead : ∃ rest, (block .standard 0 (form items)).head = '(' :: rest := by
    cases items with
    | nil => exact ⟨_, rfl⟩
    | cons first others =>
      rw [block, blocks, setForm]
      split
      · rename_i line hline
        obtain ⟨-, -, rfl⟩ := lineOf?_eq_some_iff.mp hline
        exact ⟨_, rfl⟩
      · exact ⟨_, rfl⟩
  obtain ⟨rest, hrest⟩ := hhead
  intro hempty
  have hchars := congrArg String.toList hempty
  rw [pretty, layout, String.toList_ofList, Block.chars, hrest] at hchars
  cases hchars

namespace Expr

/-- Where a tree declares nothing but parameters, so does every part of it. -/
theorem Declared.of_mem_nodes {e n : Expr} (h : e.Declared) (hn : n ∈ e.nodes) : n.Declared := by
  induction e using children_induction with
  | step e ih =>
    rcases (mem_nodes_iff n e).mp hn with ⟨c, hc, hn⟩ | ⟨-, rfl⟩
    · exact ih c hc ((declared_iff_children.mp h).1 c hc) hn
    · exact h

/-- The text of a call in a tree that declares nothing but parameters. -/
theorem exists_text_of_call {l : Label} {receiver : Expr} {m : Member} {arguments : List Expr}
    (h : (call l receiver m arguments).Declared) :
    ∃ s, (call l receiver m arguments).serialize false = .ok s ∧ s ≠ "" := by
  exact ⟨_, serialize_false h, Sexp.pretty_form_ne_empty _⟩

end Expr

/-- A refusal on a walk over a tree that declares nothing but parameters, by metadata that does not
refuse by itself. -/
structure Refusal.Arises (metadata : Metadata) (t : Expr) (refusal : Refusal) : Prop where
  declared : t.Declared
  own : ∀ asked q, metadata.answer asked q ≠ .error (.refused refusal)
  run : ∃ w w', normalize metadata t w = .error (.refused refusal) w'

/-- Where the metadata does not refuse by itself and a tree declares nothing but parameters, what is
refused is an accessor call as it stands in the tree, and it has a report. Without colour the report
is the headline, then the lines of the call behind a margin, then a note, and then advice exactly if
a property was found that the method does not back.

The report is shown with colour or without as soon as it can be told which. It cannot be shown
exactly if the settings leave that open and the error stream raises something when it is asked. With
settings of the documented kind it is coloured as documented. -/
theorem text_of_refused {metadata : Metadata} {t : Expr} {refusal : Refusal}
    (h : refusal.Arises metadata t) :
    refusal.call ∈ t.accessorCalls ∧ (∃ asked, refusal.Due (metadata.answer asked)) ∧
      ∃ s lines d, refusal.call.serialize false = .ok s ∧ "\n".intercalate lines = s ∧
        (∀ line ∈ lines, '\n' ∉ line.toList) ∧
        refusal.violation.diagnostic = .ok d ∧
        d.render false = "\n".intercalate (refusal.reportLines lines) ∧
        ∀ (ε : Type) (display : Display ε),
          (∀ color, display.useColor = .ok color →
            refusal.violation.text display = .ok (d.render color)) ∧
          (∀ fault, refusal.violation.text display = .error fault ↔
            display.setting? = none ∧
              ∃ raised, display.terminal = some (.error raised) ∧ fault = .inr raised) ∧
          (display.Regular →
            refusal.violation.text display = .ok (d.render display.documented)) := by
  obtain ⟨declared, own, w, w', hrun⟩ := h
  obtain ⟨hmem, asked, due⟩ :=
    Normalization.refused_of_accept own (normalize_eq_error_iff.mp hrun)
  have hnodes : t.accessorCalls ⊆ t.nodes := List.filter_subset_self _
  have hdeclared := declared.of_mem_nodes (hnodes hmem)
  obtain ⟨s, hs, hne, present⟩ : ∃ s, refusal.call.serialize false = .ok s ∧ s ≠ "" ∧
      refusal.call.isAbsent = false := by
    cases due with
    | unanswered | notAccessor =>
      obtain ⟨s, hs, hne⟩ := Expr.exists_text_of_call hdeclared
      exact ⟨s, hs, hne, rfl⟩
  obtain ⟨d, hd, hplain⟩ := refusal.exists_diagnostic hs hne present
  have hshown : ∀ (ε : Type) (display : Display ε) color, display.useColor = .ok color →
      refusal.violation.text display = .ok (d.render color) := by
    intro ε display color hcolor
    rw [Violation.text_eq hd, hcolor]
    rfl
  refine ⟨hmem, ⟨asked, due⟩, s, _, d, hs, Diagnostic.intercalate_lines s, ?_, hd, hplain, ?_⟩
  · intro line hline
    obtain ⟨cs, hcs, rfl⟩ := List.mem_map.mp hline
    rw [String.toList_ofList]
    exact Diagnostic.not_mem_splitLines s.toList cs hcs
  · intro ε display
    exact ⟨hshown ε display, Violation.text_eq_error_iff hd display,
      fun regular => hshown ε display _ (Display.useColor_of_regular regular)⟩

namespace Grid

/-- The grid's indexer, were it without a setter. -/
def readOnly : Property := { cells with setter := .absent }

def readOnlyProvider : Provider := .fixed .absent (.property readOnly)

/-- The write of the first cell, refused for want of a setter. -/
def unwritten : Refusal :=
  ⟨.call 4 grid (.method setter) [row, readFirst], setter, .notAccessor readOnly .setter⟩

/-- The write is refused after the read in it has been settled. -/
theorem run_readOnly : ∃ w', normalize readOnlyProvider copyFirst (Work.start 6) =
    .error (.refused unwritten) w' ∧ w'.settled = 1 := ⟨_, rfl, rfl⟩

/-- The refusal arises in the copy of the first cell. -/
theorem unwritten_arises : unwritten.Arises readOnlyProvider copyFirst := by
  obtain ⟨w', hrun, -⟩ := run_readOnly
  refine ⟨by decide, ?_, Work.start 6, w', hrun⟩
  intro asked q
  cases q <;> exact nofun

end Grid

namespace Display

/-- Nothing is set, and the error stream has been closed. -/
def closed : Display String := ⟨none, none, some (.error "I/O operation on closed file")⟩

/-- The second setting is a word of no meaning, and the error stream is a terminal. -/
def undecided : Display Empty := ⟨none, some "maybe", some (.ok true)⟩

/-- Colour is switched off, and the error stream has been closed. -/
def quiet : Display String := ⟨some "1", none, some (.error "I/O operation on closed file")⟩

/-- Where nothing is set, it is left open whether colour is shown. -/
theorem setting?_closed : closed.setting? = none := by decide +kernel

/-- A word of no meaning leaves it to the terminal, which has colour. -/
theorem useColor_undecided : undecided.useColor = .ok true := by decide +kernel

/-- The documented rule has no colour for a word of no meaning. -/
theorem documented_undecided : undecided.documented = false := by decide +kernel

end Display

/-- The write is refused and shown with the read in it as the call that it is in the tree. It can be
shown on a closed stream where colour is switched off, but not where nothing is set. -/
theorem text_of_refused_copyFirst :
    Grid.unwritten.Arises Grid.readOnlyProvider Grid.copyFirst ∧
      Grid.unwritten.call ∈ Grid.copyFirst.accessorCalls ∧
      Grid.readFirst ∈ Grid.unwritten.call.accessorCalls ∧
      ∃ lines, Grid.unwritten.call.serialize false = .ok ("\n".intercalate lines) ∧
        Grid.unwritten.violation.text Display.quiet = .ok ("\n".intercalate
          ("error[E0601]: expression not supported: `set_Item` is not the set accessor of `Item`"
          :: (lines.map (fun line => "  | " ++ line) ++
            ["  = note: `Grid.Item` has no set accessor",
             "  = help: hand-written methods named like accessors cannot be normalized"]))) ∧
        Grid.unwritten.violation.text Display.closed =
          .error (.inr "I/O operation on closed file") := by
  obtain ⟨hmem, -, s, lines, d, hs, rfl, -, -, hplain, hshown⟩ :=
    text_of_refused Grid.unwritten_arises
  have hinner : Grid.readFirst ∈ Grid.unwritten.call.accessorCalls := List.mem_cons_self
  refine ⟨Grid.unwritten_arises, hmem, hinner, lines, hs, ?_, ?_⟩
  · rw [(hshown String Display.quiet).1 false rfl, hplain]
    rfl
  · exact ((hshown String Display.closed).2.1 _).mpr ⟨Display.setting?_closed, _, rfl, rfl⟩

/-- It is not so that whatever is refused can be shown on every display, nor that it is shown
without colour where the documented rule has none. -/
theorem not_forall_text :
    (¬ ∀ (metadata : Metadata) (t : Expr) (refusal : Refusal), refusal.Arises metadata t →
      ∀ (ε : Type) (display : Display ε), ∃ text, refusal.violation.text display = .ok text) ∧
    ¬ ∀ (metadata : Metadata) (t : Expr) (refusal : Refusal), refusal.Arises metadata t →
      ∀ (ε : Type) (display : Display ε), display.documented = false →
        ∀ d, refusal.violation.diagnostic = .ok d →
          refusal.violation.text display = .ok (d.render false) := by
  obtain ⟨s, hs, hne⟩ : ∃ s, Grid.unwritten.call.serialize false = .ok s ∧ s ≠ "" :=
    Expr.exists_text_of_call (by decide)
  obtain ⟨d, hd, -⟩ := Grid.unwritten.exists_diagnostic hs hne rfl
  constructor
  · intro hall
    obtain ⟨text, htext⟩ := hall _ _ _ Grid.unwritten_arises String Display.closed
    rw [(Violation.text_eq_error_iff hd _ _).mpr ⟨Display.setting?_closed, _, rfl, rfl⟩] at htext
    cases htext
  · intro hall
    have hcoloured : Grid.unwritten.violation.text Display.undecided = .ok (d.render true) := by
      rw [Violation.text_eq hd, Display.useColor_undecided]
      rfl
    have hplain := hall _ _ _ Grid.unwritten_arises Empty _ Display.documented_undecided d hd
    rw [hcoloured] at hplain
    exact d.render_true_ne (Except.ok.inj hplain)

end CanonicalAccess
