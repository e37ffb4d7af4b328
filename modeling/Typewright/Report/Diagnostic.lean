import Typewright.Report.Issue
import Typewright.Text.Blank
import Typewright.Text.Line
import Typewright.Text.Position

/-!
# Diagnostics

A diagnostic is an issue and the place it was found at; an issue of the program as a whole has none.
It is shown in two ways: `Diagnostic.summary` is one line, and `Diagnostic.excerpt` also shows the
line of the source with a caret below the place.
-/

set_option autoImplicit false

namespace Typewright

/-- An issue and where it was found. -/
structure Diagnostic where
  issue : Issue
  position : Option Position := none
deriving DecidableEq, Repr, Inhabited

namespace Diagnostic

/-- The issue `i` at the place `p`. -/
def located (i : Issue) (p : Position) : Diagnostic := ⟨i, some p⟩

/-- The message after the number of the line. -/
def summary (d : Diagnostic) : String :=
  match d.position with
  | some p => toString p.line ++ ": " ++ d.issue.message
  | none => d.issue.message

/-- The line of the source as an excerpt shows it, without the spaces in front and the blanks
behind, and the number of spaces that were dropped in front. -/
def excerptLine (source : String) (line : Nat) : List Char × Nat :=
  let text := ((Text.line? source line).getD "").toList
  let spaces := (text.takeWhile (· = ' ')).length
  (Text.trimRight Text.isBlank (text.drop spaces), spaces)

/-- The excerpt: the name of the issue and its message, the file and the place, the line of the
source, and below it a caret under the place, with an arrow that leads to it. -/
def excerpt (d : Diagnostic) (file source : String) : String :=
  let head := "Error: " ++ d.issue.name ++ " (" ++ d.issue.message ++ ")\n"
  match d.position with
  | none => head ++ "-> " ++ file ++ "\n"
  | some p =>
    let number := toString p.line
    let bar := String.ofList (['|'].leftpad (number.length + 2) ' ')
    let (text, spaces) := excerptLine source p.line
    let arrow := String.ofList (['^'].leftpad (p.column - spaces) '-')
    head ++ "-> " ++ file ++ ":" ++ p.text ++ "\n"
      ++ bar ++ "\n"
      ++ number ++ " | " ++ String.ofList text ++ "\n"
      ++ bar ++ " " ++ arrow ++ "\n"

end Diagnostic
end Typewright
