/-!
# Diagnostics

A diagnostic shows a headline with an optional code, the lines of its subject behind a margin, and
an optional note and advice. Its lines are made of spans; a span may be styled, which shows only
where colour is wanted. Parts that are absent or empty are left out.
-/

set_option autoImplicit false

namespace CanonicalAccess

/-- The control sequences that style text on a terminal. -/
structure Ansi where
  bold : String
  red : String
  cyan : String
  reset : String

def ansi : Ansi := ⟨"\x1b[1m", "\x1b[31m", "\x1b[36m", "\x1b[0m"⟩

/-- A piece of text and the control sequences in front of it. -/
structure Span where
  codes : List String
  text : String
deriving DecidableEq, Repr

namespace Span

def plain (text : String) : Span := ⟨[], text⟩

/-- A span as text. With colour, the sequences stand in front and a reset behind, unless the
sequences are empty. -/
def render (color : Bool) (s : Span) : String :=
  let opening := String.join s.codes
  if !color || opening.isEmpty then s.text else opening ++ s.text ++ ansi.reset

/-- Spans as text, one behind the other. -/
def renderLine (color : Bool) (line : List Span) : String := String.join (line.map (render color))

end Span

/-- What stands between the margin and the word of a note or an advice. -/
def notePrefix : String := "= "

structure Diagnostic where
  message : String
  code : Option String
  subject : Option String
  help : Option String
  note : Option String
deriving DecidableEq, Repr

namespace Diagnostic

/-- A part that is there and not empty. -/
def present (part : Option String) : Option String := part.filter fun s => !s.isEmpty

def headline (d : Diagnostic) : List Span :=
  let code := match present d.code with
    | some c => "[" ++ c ++ "]"
    | none => ""
  [⟨[ansi.bold, ansi.red], "error" ++ code⟩, ⟨[ansi.bold], ": " ++ d.message⟩]

def splitLines : List Char → List (List Char)
  | [] => [[]]
  | '\n' :: rest => [] :: splitLines rest
  | c :: rest => match splitLines rest with
    | line :: lines => (c :: line) :: lines
    | [] => [[c]]

/-- One line of the subject, behind the margin. -/
def subjectLine (line : List Char) : List Span :=
  [⟨[ansi.bold, ansi.cyan], "  | "⟩, .plain (String.ofList line)]

/-- A remark of some sort, behind the margin. -/
def remark (sort text : String) : List Span :=
  [⟨[ansi.bold, ansi.cyan], "  " ++ notePrefix⟩, ⟨[ansi.bold], sort ++ ": "⟩, .plain text]

def lines (d : Diagnostic) : List (List Span) :=
  d.headline ::
    ((match present d.subject with
      | some s => (splitLines s.toList).map subjectLine
      | none => []) ++
    ((present d.note).map (remark "note")).toList ++
    ((present d.help).map (remark "help")).toList)

def render (color : Bool) (d : Diagnostic) : String :=
  "\n".intercalate (d.lines.map (Span.renderLine color))

end Diagnostic

end CanonicalAccess
