import Typewright.Text.Position
import Typewright.Token.Kind

/-!
# Tokens

A token is its kind, its text and the stretch of the source that it was read from.  The text of a
string token is the string that it denotes; every other token has its spelling as its text, and the
end of the text has the text `EOF`.
-/

set_option autoImplicit false

namespace Typewright

/-- A token of a source text. -/
structure Token where
  kind : Kind
  value : String
  span : Span
deriving DecidableEq, Repr, Inhabited

namespace Token

/-- The place where the token starts. -/
def start (t : Token) : Position := t.span.start

/-- The token that closes a list of tokens. -/
def endAt (p : Position) : Token := ⟨.endOfText, "EOF", ⟨p, p⟩⟩

/-- A token in messages. -/
def text (t : Token) : String :=
  "Token \x7b\nkind: " ++ t.kind.name ++ ",\nvalue: " ++ t.value ++ "\x7d"

end Token
end Typewright
