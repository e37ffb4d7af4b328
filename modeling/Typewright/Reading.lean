import Typewright.Grammar.Stmt
import Typewright.Report.Event
import Typewright.Token.Scan

/-!
# Reading a source text

A source text is scanned into tokens, and the tokens are read as a program.  What goes wrong first
ends the reading.
-/

set_option autoImplicit false

namespace Typewright

/-- Why a source text is not a program. -/
inductive Refusal where
  /-- It has a character that starts no token. -/
  | scan (d : Diagnostic)
  /-- Its tokens spell no program. -/
  | grammar (stop : Stop)
deriving DecidableEq, Repr

/-- What to tell about it. -/
def Refusal.diagnostic? : Refusal → Option Diagnostic
  | scan d | grammar (.error d) => some d
  | grammar _ => none

/-- The outcome of reading a source text, with the log of it. -/
structure Reading where
  log : List Event
  result : Except Refusal Program

/-- Reads a source text. -/
def Program.read (source : String) : Reading :=
  match Token.scan source with
  | .error d => ⟨[], .error (.scan d)⟩
  | .ok ts =>
    match Program.ofTokens ts with
    | .error stop => ⟨[.tokenized ts.length], .error (.grammar stop)⟩
    | .ok p => ⟨[.tokenized ts.length, .parsed p.decls.length], .ok p⟩

end Typewright
