/-!
# Lines of a text

A line is the text between two line breaks.  `Text.line?` numbers lines from one, so line zero and a
line after the last one do not exist, while a text that ends in a line break has an empty last line.
Carriage returns at the end of a line belong to the line break and not to the line.
-/

set_option autoImplicit false

namespace Typewright
namespace Text

/-- The text without the longest ending all of whose characters satisfy `p`. -/
def trimRight (p : Char → Bool) (cs : List Char) : List Char := (cs.reverse.dropWhile p).reverse

/-- The text between the line breaks around line `n`, if there are that many lines. -/
def rawLine? : Nat → List Char → Option (List Char)
  | 0, _ => none
  | 1, cs => some (cs.takeWhile (· ≠ '\n'))
  | n + 2, cs =>
    match cs.dropWhile (· ≠ '\n') with
    | [] => none
    | _ :: rest => rawLine? (n + 1) rest

/-- Line `n` of a text, without the carriage returns before its line break. -/
def line? (source : String) (n : Nat) : Option String :=
  (rawLine? n source.toList).map fun cs ↦ String.ofList (trimRight (· = '\r') cs)

end Text
end Typewright
