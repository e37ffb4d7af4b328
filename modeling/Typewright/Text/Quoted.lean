import Typewright.Text.Combining
import Typewright.Text.Invisible

/-!
# Quoted text

A text is shown between double quotes.  Six characters have an escape of their own; a character that
would not be seen, or that would be drawn onto its neighbour, is written by its code point.
-/

set_option autoImplicit false

namespace Typewright
namespace Text

/-- A character by its code point in hexadecimal, between braces after a backslash and a `u`. -/
def byCodePoint (c : Char) : List Char :=
  '\\' :: 'u' :: '\x7b' :: Nat.toDigits 16 c.toNat ++ ['\x7d']

/-- What stands for one character inside the quotes. -/
def escape (c : Char) : List Char :=
  if c = '\x00' then ['\\', '0']
  else if c = '\t' then ['\\', 't']
  else if c = '\r' then ['\\', 'r']
  else if c = '\n' then ['\\', 'n']
  else if c = '"' then ['\\', '"']
  else if c = '\\' then ['\\', '\\']
  else if isCombining c || isInvisible c then byCodePoint c
  else [c]

/-- The text between double quotes, each character escaped where it has to be. -/
def quoted (s : String) : String :=
  String.ofList ('"' :: s.toList.flatMap escape ++ ['"'])

end Text
end Typewright
