/-!
# Blank characters

`Text.isBlank` is the Unicode property `White_Space`, as a table of ranges.  Core's
`Char.isWhitespace` would not do: it knows four of these characters only.
-/

set_option autoImplicit false

namespace Typewright
namespace Text

/-- The ranges of `White_Space`, lowest first, ends included. -/
def blankRanges : List (Nat × Nat) :=
  [(0x9, 0xd), (0x20, 0x20), (0x85, 0x85), (0xa0, 0xa0), (0x1680, 0x1680), (0x2000, 0x200a),
    (0x2028, 0x2029), (0x202f, 0x202f), (0x205f, 0x205f), (0x3000, 0x3000)]

/-- The character is a space, a tab, a line break or another blank. -/
def isBlank (c : Char) : Bool :=
  blankRanges.any fun r ↦ decide (r.1 ≤ c.toNat ∧ c.toNat ≤ r.2)

end Text
end Typewright
