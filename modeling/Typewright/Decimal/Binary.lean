/-!
# Double precision numbers and exact fractions

A finite double is `m · 2 ^ q` with `m < 2 ^ 53` and `-1074 ≤ q`.  `Binary.nearest` rounds a
positive fraction to the bit pattern of the nearest double, a tie going to the even mantissa, and
past the largest double to infinity; `Binary.decode` reads a bit pattern back as `m` and `q`.
Everything is computed on natural numbers, so nothing is lost on the way.
-/

set_option autoImplicit false

namespace Typewright
namespace Binary

/-- The bit pattern of positive infinity; every larger pattern without a sign is no number. -/
def infinity : Nat := 0x7ff0000000000000

/-- The bit that holds the sign. -/
def signBit : Nat := 0x8000000000000000

/-- The least exponent of a double. -/
def minExponent : Int := -1074

/-- The quotient `num / den` rounded to the nearest integer, a tie going to the even one. -/
def roundDiv (num den : Nat) : Nat :=
  let quotient := num / den
  let rest := num % den
  if 2 * rest < den then quotient
  else if den < 2 * rest then quotient + 1
  else quotient + quotient % 2

/-- The exponent `q` for which `num / den` lies in `[2 ^ (q + 52), 2 ^ (q + 53))`, or the least
exponent where that one is below it. -/
def exponent (num den : Nat) : Int :=
  let k : Int := (num.log2 : Int) - (den.log2 : Int)
  let reaches := if 0 ≤ k then den * Nat.pow 2 k.toNat ≤ num else den ≤ num * Nat.pow 2 (-k).toNat
  max minExponent (if reaches then k - 52 else k - 53)

/-- The bit pattern of the double nearest to the fraction `num / den`, for a positive `den`.  The
mantissa is added onto the exponent field, so a mantissa that rounds up to `2 ^ 53` carries into
it. -/
def nearest (num den : Nat) : Nat :=
  if num = 0 then 0
  else
    let q := exponent num den
    let m :=
      if 0 ≤ q then roundDiv num (den * Nat.pow 2 q.toNat)
      else roundDiv (num * Nat.pow 2 (-q).toNat) den
    min infinity ((q - minExponent).toNat * Nat.pow 2 52 + m)

/-- The mantissa and the exponent of a finite bit pattern without its sign. -/
def decode (bits : Nat) : Nat × Int :=
  let field : Nat := bits / Nat.pow 2 52
  let fraction : Nat := bits % Nat.pow 2 52
  if field = 0 then (fraction, minExponent)
  else (fraction + Nat.pow 2 52, minExponent + (field : Int) - 1)

end Binary
end Typewright
