import Typewright.Decimal.Binary

/-!
# The fewest digits that read back

Many decimals round to one double: those between its midpoints with the two neighbouring doubles,
the midpoints themselves included when the mantissa is even.  `Decimal.shortest` takes the decimal
with the fewest digits among them, and of several with that many digits the one nearest to the
double, the larger one on a tie.
-/

set_option autoImplicit false

namespace Typewright

/-- The number `digits · 10 ^ exponent`. -/
structure Decimal where
  digits : Nat
  exponent : Int
deriving DecidableEq, Repr, Inhabited

namespace Decimal

/-- A double and the two midpoints around it, as fractions over one denominator. -/
structure Interval where
  low : Nat
  value : Nat
  high : Nat
  den : Nat
  /-- Whether the midpoints round to the double too. -/
  closed : Bool

/-- The interval of the numbers that round to `m · 2 ^ q`.  Below a power of two the next double is
half as far away. -/
def interval (m : Nat) (q : Int) : Interval :=
  let scale := if 2 ≤ q then Nat.pow 2 (q - 2).toNat else 1
  let den := if 2 ≤ q then 1 else Nat.pow 2 (2 - q).toNat
  let below := if m = Nat.pow 2 52 ∧ Binary.minExponent < q then 1 else 2
  { low := (4 * m - below) * scale, value := 4 * m * scale, high := (4 * m + 2) * scale
    den := den, closed := m % 2 = 0 }

/-- The fraction `num / den` lies in the interval. -/
def Interval.contains (i : Interval) (num den : Nat) : Bool :=
  let l := i.low * den
  let x := num * i.den
  let h := i.high * den
  if i.closed then decide (l ≤ x ∧ x ≤ h) else decide (l < x ∧ x < h)

/-- The decimal on the grid of multiples of `10 ^ e` that lies in the interval and is nearest to its
value, if there is one.  Only the two neighbours of the value on the grid have to be tried. -/
def onGrid? (i : Interval) (e : Int) : Option Decimal :=
  let up := if 0 ≤ e then Nat.pow 10 e.toNat else 1
  let down := if 0 ≤ e then 1 else Nat.pow 10 (-e).toNat
  let num := i.value * down
  let den := i.den * up
  let lower := num / den
  let upper := lower + 1
  match i.contains (lower * up) down, i.contains (upper * up) down with
  | false, false => none
  | true, false => some ⟨lower, e⟩
  | false, true => some ⟨upper, e⟩
  | true, true => some (if 2 * (num % den) < den then ⟨lower, e⟩ else ⟨upper, e⟩)

/-- How many digits stand before the point of the positive fraction `num / den`: the least `k` with
`num / den < 10 ^ k`. -/
def magnitude (num den : Nat) : Int :=
  if den ≤ num then ((Nat.toDigits 10 (num / den)).length : Int)
  else
    -- with `d` the digits of `den / num`, the fraction is in `(10 ^ (-d), 10 ^ (1 - d)]`
    let d := (Nat.toDigits 10 (den / num)).length
    if num * Nat.pow 10 (d - 1) = den then 2 - (d : Int) else 1 - (d : Int)

/-- The first hit on finer and finer grids, from the one of `10 ^ e` on, at most `n` of them. -/
def firstOnGrid : Nat → Interval → Int → Option Decimal
  | 0, _, _ => none
  | n + 1, i, e => (onGrid? i e).or (firstOnGrid n i (e - 1))

/-- A decimal without zeros at its end; at most `n` are dropped. -/
def dropZeros : Nat → Decimal → Decimal
  | 0, d => d
  | n + 1, d =>
    if d.digits % 10 = 0 ∧ d.digits ≠ 0 then dropZeros n ⟨d.digits / 10, d.exponent + 1⟩ else d

/-- The decimal with the fewest digits that rounds to the double with these bits, which are positive
and finite.  Seventeen digits always suffice. -/
def shortest (bits : Nat) : Decimal :=
  let (m, q) := Binary.decode bits
  let i := interval m q
  let k := magnitude i.value i.den
  match firstOnGrid 17 i (k - 1) with
  | some d => dropZeros 17 d
  | none => ⟨0, 0⟩

end Decimal
end Typewright
