import CanonicalAccess.Value.Basic
import CanonicalAccess.Double.Shortest
import CanonicalAccess.Text.Quoted

/-!
# Text of payloads

The literal text of a payload: items are separated by a comma and a blank, a tuple of one item has
a comma behind it, and texts inside are quoted.
-/

set_option autoImplicit false

namespace CanonicalAccess.Value

/-- Texts with a comma and a blank between them. -/
def commaSeparated : List (List Char) → List Char
  | [] => []
  | [t] => t
  | t :: rest => t ++ ',' :: ' ' :: commaSeparated rest

/-- Items between the brackets of a tuple; a single one is followed by a comma. -/
def tupleBrackets : List (List Char) → List Char
  | [t] => '(' :: t ++ [',', ')']
  | ts => '(' :: commaSeparated ts ++ [')']

mutual

def literalChars : Value → List Char
  | null => "None".toList
  | bool b => (if b then "True" else "False").toList
  | int n => (toString n).toList
  | float d => d.text.toList
  | str s => Text.literal s.toList
  | bytes bs => Text.byteLiteral bs
  | list items => '[' :: commaSeparated (itemLiterals items) ++ [']']
  | tuple items => tupleBrackets (itemLiterals items)
  | dict entries => '\x7b' :: commaSeparated (entryLiterals entries) ++ ['\x7d']
termination_by structural v => v

def itemLiterals : List Value → List (List Char)
  | [] => []
  | v :: vs => literalChars v :: itemLiterals vs
termination_by structural vs => vs

/-- The literals of entries, key and value separated by a colon. -/
def entryLiterals : List (Value × Value) → List (List Char)
  | [] => []
  | (k, v) :: rest => (literalChars k ++ ':' :: ' ' :: literalChars v) :: entryLiterals rest
termination_by structural entries => entries

end

def literal (v : Value) : String := String.ofList (literalChars v)

end CanonicalAccess.Value
