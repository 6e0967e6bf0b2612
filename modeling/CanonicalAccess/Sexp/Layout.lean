import CanonicalAccess.Sexp.Basic
import CanonicalAccess.Value.Text

/-!
# Layout of S-expressions over lines

A form is set on one line if that line fits the width and nothing in it breaks; otherwise its
first element follows the opening parenthesis, every further element starts a line of its own one
step deeper, and the closing parenthesis stands on the last line. Elements are laid out by the
same rule one step deeper, wherever their form ends up.

A laid-out text is kept as a block of lines, each with the depth at which it is indented, and
becomes characters only at the end. The width counts characters, and a depth below zero indents by
nothing.
-/

set_option autoImplicit false

namespace CanonicalAccess.Sexp

/-- How wide a line may be, and the text of one step of indentation. -/
structure Layout where
  width : Int
  step : List Char
deriving DecidableEq, Repr

/-- Lines of at most a hundred characters, indented by two blanks. -/
def Layout.standard : Layout := ⟨100, [' ', ' ']⟩

def Layout.indent (l : Layout) (depth : Int) : List Char :=
  (List.replicate depth.toNat l.step).flatten

/-- Whether a text can stand as it is on a line of the layout. -/
def Layout.fits (l : Layout) (cs : List Char) : Bool :=
  (cs.length : Int) ≤ l.width && !cs.contains '\n'

/-- Text over lines: the first line, which is indented by what stands before it, and further lines
with their depths. -/
structure Block where
  head : List Char
  tail : List (Int × List Char)
deriving DecidableEq, Repr

namespace Block

/-- Text without a line break of the layout's making. -/
def single (cs : List Char) : Block := ⟨cs, []⟩

/-- The lines of a block that starts a line at a depth. -/
def linesAt (depth : Int) (b : Block) : List (Int × List Char) := (depth, b.head) :: b.tail

def chars (l : Layout) (b : Block) : List Char :=
  b.head ++ b.tail.flatMap fun (depth, cs) => '\n' :: (l.indent depth ++ cs)

/-- Whether a block, set as a line at a depth, shows no character. -/
def isBlank (l : Layout) (depth : Int) (b : Block) : Bool :=
  (l.indent depth).isEmpty && b.head.isEmpty && b.tail.isEmpty

end Block

def spaced : List (List Char) → List Char
  | [] => []
  | [t] => t
  | t :: rest => t ++ ' ' :: spaced rest

def parens (cs : List Char) : List Char := '(' :: (cs ++ [')'])

/-- The elements of a form behind the first, each on lines of its own. A single one that shows no
character takes no line. -/
def elementLines (l : Layout) (depth : Int) (others : List Block) : List (Int × List Char) :=
  match others with
  | [b] => if b.isBlank l depth then [] else b.linesAt depth
  | bs => bs.flatMap (Block.linesAt depth)

/-- A form broken over lines at a depth. -/
def broken (l : Layout) (depth : Int) (first : Block) (others : List Block) : Block :=
  ⟨'(' :: first.head, first.tail ++ (elementLines l (depth + 1) others ++ [(depth, [')'])])⟩

/-- The line on which the elements of a form fit, if none of them is broken and there is one. -/
def lineOf? (l : Layout) (parts : List Block) : Option (List Char) :=
  if parts.all fun b => b.tail.isEmpty then
    let line := parens (spaced (parts.map Block.head))
    if l.fits line then some line else none
  else none

def setForm (l : Layout) (depth : Int) : List Block → Block
  | [] => .single ['(', ')']
  | first :: others =>
    match lineOf? l (first :: others) with
    | some line => .single line
    | none => broken l depth first others

/-- The text of a datum that stands in a form: an empty list for nothing, words for truth values,
and text between quotes; all other data as their literals. -/
def datumChars : Value → List Char
  | .null => ['(', ')']
  | .bool b => (if b then "true" else "false").toList
  | .str s => Text.enclose '"' (Text.escape Text.spanning s.toList)
  | v => v.literalChars

mutual

/-- The block of an S-expression at a depth. -/
def block (l : Layout) (depth : Int) : Sexp → Block
  | word text => .single text.toList
  | datum value => .single (datumChars value)
  | form items => setForm l depth (blocks l (depth + 1) items)
termination_by structural s => s

def blocks (l : Layout) (depth : Int) : List Sexp → List Block
  | [] => []
  | s :: rest => block l depth s :: blocks l depth rest
termination_by structural items => items

end

/-- The text of an S-expression in a layout, starting at a depth. -/
def layout (l : Layout) (depth : Int) (s : Sexp) : String :=
  String.ofList ((block l depth s).chars l)

/-- The text of an S-expression in the standard layout. -/
def pretty (s : Sexp) : String := layout .standard 0 s

end CanonicalAccess.Sexp
