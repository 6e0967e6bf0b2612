import CanonicalAccess.Diagnostic.Display
import Mathlib.Data.Option.Basic

/-!
# When colour is shown

Whether colour is shown can always be told, unless the settings leave it open and the error stream
raises something when it is asked whether it is a terminal; then that is raised
(`useColor_eq_error_iff`).

The rule that is documented speaks of settings that are set or not, and of a word that switches
colour on or off. Where the settings are of that kind and the stream answers, colour is shown as the
rule says (`useColor_of_regular`). A first setting that is set but empty, or a second one with some
other word, is not of that kind.
-/

set_option autoImplicit false

namespace CanonicalAccess.Display

variable {ε : Type} {d : Display ε}

/-- The documented rule: colour is shown if the first setting is not set, and the second one
switches it on, or is not set either and the error stream is a terminal. -/
def documented (d : Display ε) : Bool :=
  d.noColor.isNone &&
    match d.color, d.terminal with
    | some word, _ => onWords.contains word.toLower
    | none, some (.ok terminal) => terminal
    | none, _ => false

/-- The first setting is not empty if it is set, the second one is a word for on or off if it is
set, and the error stream answers if it can be asked. -/
structure Regular (d : Display ε) : Prop where
  noColor : d.noColor ≠ some ""
  color : ∀ word ∈ d.color, word.toLower ∈ offWords ∨ word.toLower ∈ onWords
  terminal : ∀ answer ∈ d.terminal, ∃ terminal, answer = .ok terminal

/-- The settings leave it open whether colour is shown if the first one is empty or not set, and the
second one is no word for on or off. -/
theorem setting?_eq_none_iff :
    d.setting? = none ↔ d.noColor.getD "" = "" ∧
      (d.color.getD "").toLower ∉ offWords ∧ (d.color.getD "").toLower ∉ onWords := by
  unfold setting?
  by_cases hno : d.noColor.getD "" = ""
  · by_cases hoff : (d.color.getD "").toLower ∈ offWords
    · simp [hno, hoff]
    · by_cases hon : (d.color.getD "").toLower ∈ onWords
      · simp [hno, hoff, hon]
      · simp [hno, hoff, hon]
  · simp [hno]

/-- What the stream raises is raised if the settings leave it open whether colour is shown, and
nothing else is. -/
theorem useColor_eq_error_iff {raised : ε} :
    d.useColor = .error raised ↔ d.setting? = none ∧ d.terminal = some (.error raised) := by
  unfold useColor
  cases d.setting? with
  | some color => simp
  | none => cases d.terminal <;> simp

/-- Words that switch colour on do not switch it off. -/
theorem not_mem_onWords {word : String} (h : word ∈ offWords) : word ∉ onWords := by
  have hall : ∀ word ∈ offWords, word ∉ onWords := by decide
  exact hall word h

/-- With settings as the documented rule has them, and a stream that answers, the rule is kept. -/
theorem useColor_of_regular (h : d.Regular) : d.useColor = .ok d.documented := by
  obtain ⟨noColor, color, terminal⟩ := d
  obtain ⟨hno, hcolor, hterminal⟩ := h
  simp only at hno hcolor hterminal
  cases noColor with
  | some value =>
    have hvalue : value ≠ "" := fun hempty => hno (congrArg some hempty)
    simp [useColor, setting?, documented, hvalue]
  | none =>
    cases color with
    | some word =>
      rcases hcolor word rfl with hoff | hon
      · simp [useColor, setting?, documented, hoff, not_mem_onWords hoff]
      · have hoff : word.toLower ∉ offWords := fun hoff => not_mem_onWords hoff hon
        simp [useColor, setting?, documented, hon, hoff]
    | none =>
      have hword : "".toLower ∉ offWords ∧ "".toLower ∉ onWords := by decide +kernel
      cases terminal with
      | none => simp [useColor, setting?, documented, hword]
      | some answer =>
        obtain ⟨b, rfl⟩ := hterminal answer rfl
        simp [useColor, setting?, documented, hword]

end CanonicalAccess.Display
