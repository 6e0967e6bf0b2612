import CanonicalAccess.Text.Printable

/-!
# Quoted text

Text is quoted by replacing each character on its own by a written form and setting quotes around
the whole. The writing conventions differ in which characters they escape and how:

* inside a form only the backslash and the quote are escaped, so that a line break stays one;
* a literal chooses its quote by the text and writes whatever cannot be shown by its code.
-/

set_option autoImplicit false

namespace CanonicalAccess.Text

/-- Each character replaced by its written form. -/
def escape (written : Char → List Char) (cs : List Char) : List Char := cs.flatMap written

/-- Nothing is left to escape in an empty text. -/
@[simp] theorem escape_nil (written : Char → List Char) : escape written [] = [] := rfl

/-- The first character is escaped on its own. -/
@[simp] theorem escape_cons (written : Char → List Char) (c : Char) (cs : List Char) :
    escape written (c :: cs) = written c ++ escape written cs := by
  simp [escape]

def enclose (quote : Char) (cs : List Char) : List Char := quote :: (cs ++ [quote])

/-- The written form of a character in a form that may span lines. -/
def spanning (c : Char) : List Char :=
  if c == '\\' || c == '"' then ['\\', c] else [c]

/-- A code as hexadecimal digits in lower case, filled up with zeros. -/
def hex (width n : Nat) : List Char :=
  let digits := Nat.toDigits 16 n
  List.replicate (width - digits.length) '0' ++ digits

/-- The quote of a literal: an apostrophe, unless the text holds one and no double quote. -/
def literalQuote (cs : List Char) : Char :=
  if cs.contains '\'' && !cs.contains '"' then '"' else '\''

/-- The escapes that every literal shares: the backslash, the quote, tab and line ends. -/
def literalEscape? (quote c : Char) : Option (List Char) :=
  if c == '\\' || c == quote then some ['\\', c]
  else if c == '\n' then some ['\\', 'n']
  else if c == '\r' then some ['\\', 'r']
  else if c == '\t' then some ['\\', 't']
  else none

/-- The written form of a character of a literal: itself if it is printable, else its code. -/
def inLiteral (quote c : Char) : List Char :=
  match literalEscape? quote c with
  | some written => written
  | none =>
    let n := c.toNat
    if isPrintable c then [c]
    else if n < 0x100 then '\\' :: 'x' :: hex 2 n
    else if n < 0x10000 then '\\' :: 'u' :: hex 4 n
    else '\\' :: 'U' :: hex 8 n

def literal (cs : List Char) : List Char :=
  let quote := literalQuote cs
  enclose quote (escape (inLiteral quote) cs)

/-- The written form of a byte of a literal: a visible ASCII character, or its code. -/
def byteInLiteral (quote c : Char) : List Char :=
  match literalEscape? quote c with
  | some written => written
  | none => if ' ' ≤ c && c ≤ '~' then [c] else '\\' :: 'x' :: hex 2 c.toNat

/-- The literal of a sequence of bytes, marked by a letter in front. -/
def byteLiteral (bytes : List UInt8) : List Char :=
  let cs := bytes.map fun b => Char.ofNat b.toNat
  let quote := literalQuote cs
  'b' :: enclose quote (escape (byteInLiteral quote) cs)

end CanonicalAccess.Text
