import CanonicalAccess.Sexp.Layout
import CanonicalAccess.Text.Blank

/-!
# Reading S-expressions

The text of an S-expression is read in two steps: it is cut into parentheses, quoted texts and
bare words, blanks and line breaks outside quotes being ignored, and these are assembled into
forms. A word that consists of decimal digits, with or without a minus in front, is an integer.
Every text that is not one S-expression is refused.
-/

set_option autoImplicit false

namespace CanonicalAccess.Sexp

/-- The pieces of a text. -/
inductive Token where
  | opening
  | closing
  | quoted (cs : List Char)
  | bare (cs : List Char)
deriving DecidableEq, Repr

/-- Where in a text reading stands: between pieces, in a bare word, in a quoted text, or behind a
backslash in one. What was read of the piece is kept in reverse. -/
inductive Position where
  | between
  | inBare (done : List Char)
  | inQuoted (done : List Char)
  | escaped (done : List Char)
deriving DecidableEq, Repr

/-- The piece that starts or is complete with a character outside quotes, if any, and where
reading goes on. -/
def start (c : Char) : List Token × Position :=
  if Text.isBlank c then ([], .between)
  else if c == '(' then ([.opening], .between)
  else if c == ')' then ([.closing], .between)
  else if c == '"' then ([], .inQuoted [])
  else ([], .inBare [c])

/-- The pieces of a text from a position on. A text that ends within quotes has none. -/
def tokens : Position → List Char → Option (List Token)
  | .between, [] => some []
  | .inBare done, [] => some [.bare done.reverse]
  | .inQuoted _, [] => none
  | .escaped _, [] => none
  | .between, c :: rest => (tokens (start c).2 rest).map ((start c).1 ++ ·)
  | .inBare done, c :: rest =>
    if Text.isBlank c || c == '(' || c == ')' || c == '"' then
      (tokens (start c).2 rest).map (.bare done.reverse :: (start c).1 ++ ·)
    else tokens (.inBare (c :: done)) rest
  | .inQuoted done, c :: rest =>
    if c == '\\' then tokens (.escaped done) rest
    else if c == '"' then (tokens .between rest).map (.quoted done.reverse :: ·)
    else tokens (.inQuoted (c :: done)) rest
  | .escaped done, c :: rest => tokens (.inQuoted (c :: done)) rest

def natural? (cs : List Char) : Option Nat :=
  if !cs.isEmpty && cs.all Char.isDigit then some (Nat.ofDigitChars 10 cs 0) else none

/-- The integer that a word denotes, if it does: decimal digits, with or without a minus in front.
-/
def integer? : List Char → Option Int
  | '-' :: cs => (natural? cs).map fun n => -(n : Int)
  | cs => (natural? cs).map fun n => (n : Int)

/-- The S-expression of a bare word: an integer, or the word. -/
def ofBare (cs : List Char) : Sexp :=
  match integer? cs with
  | some n => datum (.int n)
  | none => word (String.ofList cs)

/-- Assembles pieces into S-expressions. The stack holds the elements so far, in reverse, of the
forms that are open, the innermost first and the whole text last. -/
def assemble : List (List Sexp) → List Token → Option (List Sexp)
  | [done], [] => some done.reverse
  | _, [] => none
  | stack, .opening :: rest => assemble ([] :: stack) rest
  | done :: outer :: stack, .closing :: rest =>
    assemble ((form done.reverse :: outer) :: stack) rest
  | _, .closing :: _ => none
  | done :: stack, .quoted cs :: rest =>
    assemble ((datum (.str (String.ofList cs)) :: done) :: stack) rest
  | done :: stack, .bare cs :: rest => assemble ((ofBare cs :: done) :: stack) rest
  | [], _ :: _ => none

def read? (cs : List Char) : Option Sexp := do
  match ← assemble [[]] (← tokens .between cs) with
  | [s] => some s
  | _ => none

end CanonicalAccess.Sexp
