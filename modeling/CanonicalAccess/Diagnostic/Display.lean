/-!
# Whether colour is shown

Two settings and the error stream decide together whether diagnostics are coloured. The settings are
asked first. Only if they leave it open is the stream asked whether it is a terminal, and a stream
may raise something instead of an answer, as one that has been closed does.
-/

set_option autoImplicit false

namespace CanonicalAccess

/-- What decides about colour: two settings, where they are set, and what the error stream answers
when it is asked whether it is a terminal, or raises; nothing if it cannot be asked. -/
structure Display (ε : Type) where
  noColor : Option String
  color : Option String
  terminal : Option (Except ε Bool)

namespace Display

variable {ε : Type}

/-- The words that switch colour off, and those that switch it on. -/
def offWords : List String := ["0", "false", "no", "never"]
def onWords : List String := ["1", "true", "yes", "always"]

/-- What the settings say. Colour is off where the first one is not empty, and then as the second
one says in any case of letters; any other word leaves it open. -/
def setting? (d : Display ε) : Option Bool :=
  if !(d.noColor.getD "").isEmpty then some false
  else
    let word := (d.color.getD "").toLower
    if offWords.contains word then some false
    else if onWords.contains word then some true
    else none

/-- Colour is as the settings say; where they leave it open, it is on for a terminal. -/
def useColor (d : Display ε) : Except ε Bool :=
  match d.setting? with
  | some color => .ok color
  | none => d.terminal.getD (.ok false)

end Display

end CanonicalAccess
