import Typewright.Text.Position

/-!
# Readers

A `Reader` is a place in a source text, kept both as a number of bytes in UTF-8 and as a line and a
column.  It moves by texts that are given to it, without a look at the source, so it can be moved
past the end or into the middle of a character; then it has nothing to read.
-/

set_option autoImplicit false

namespace Typewright

/-- What is left of a text after `n` bytes, if a character starts or the text ends there. -/
def Text.dropBytes? : Nat → List Char → Option (List Char)
  | 0, cs => some cs
  | _ + 1, [] => none
  | n + 1, c :: cs => if c.utf8Size ≤ n + 1 then dropBytes? (n + 1 - c.utf8Size) cs else none

/-- A place in a source text. -/
structure Reader where
  source : String
  /-- The number of bytes before the place. -/
  offset : Nat
  position : Position

namespace Reader

/-- The place before the first character. -/
def ofSource (source : String) : Reader := ⟨source, 0, .origin⟩

/-- The place that is `text` further on. -/
def advance (r : Reader) (text : String) : Reader :=
  { r with offset := r.offset + text.utf8ByteSize, position := r.position.after text.toList }

/-- Nothing is left to read. -/
def atEnd (r : Reader) : Bool := decide (r.source.utf8ByteSize ≤ r.offset)

/-- The text from this place on, if the place is between two characters of the source. -/
def rest? (r : Reader) : Option (List Char) := Text.dropBytes? r.offset r.source.toList

end Reader
end Typewright
