import Typewright.Decimal.Shortest

/-!
# Numerals

How a number is read from a text and how a double is written.  An integer is a sign that may be
missing and at least one digit, inside the range of 64 bits.  A decimal has a point with a digit on
one side of it at least, and may have an exponent; it is rounded to the nearest double.

Writing a double takes the fewest digits that read back (`Decimal.shortest`).  It is positional,
with a digit after the point, while the first digit stands between the fourth place after the
point and the sixteenth before it; otherwise it has one digit before the point and an exponent.
-/

set_option autoImplicit false

namespace Typewright
namespace Numeral

/-! ## Reading

A text is read as a whole: what is left over makes it no numeral. -/

/-- The value of a digit. -/
def digitValue (c : Char) : Nat := c.toNat - '0'.toNat

/-- The value of a row of digits. -/
def value (cs : List Char) : Nat := cs.foldl (fun n c ↦ 10 * n + digitValue c) 0

/-- A sign in front, whether it is a minus, and what follows it. -/
def splitSign : List Char → Bool × List Char
  | '-' :: cs => (true, cs)
  | '+' :: cs => (false, cs)
  | cs => (false, cs)

/-- A row of digits and nothing else, with one digit at least. -/
def natural? (cs : List Char) : Option Nat :=
  if cs ≠ [] ∧ cs.all Char.isDigit then some (value cs) else none

/-- An integer of at most 64 bits. -/
def integer? (text : String) : Option Int64 :=
  let (negative, cs) := splitSign text.toList
  match natural? cs with
  | none => none
  | some n =>
    if negative then if n ≤ Nat.pow 2 63 then some (Int64.ofInt (-(n : Int))) else none
    else if n < Nat.pow 2 63 then some (Int64.ofNat n) else none

/-- An integer of any size after an exponent mark. -/
def exponent? (cs : List Char) : Option Int :=
  let (negative, ds) := splitSign cs
  (natural? ds).map fun n ↦ if negative then -(n : Int) else n

/-- A decimal without its sign: digits around a point that may be missing, then an exponent that
may be missing. -/
def unsigned? (cs : List Char) : Option Decimal :=
  let whole := cs.takeWhile Char.isDigit
  let afterWhole := cs.dropWhile Char.isDigit
  let (fraction, rest) := match afterWhole with
    | '.' :: ds => (ds.takeWhile Char.isDigit, ds.dropWhile Char.isDigit)
    | ds => ([], ds)
  if whole = [] ∧ fraction = [] then none
  else
    let scale : Option Int := match rest with
      | [] => some 0
      | c :: ds => if c = 'e' ∨ c = 'E' then exponent? ds else none
    scale.map fun e ↦ ⟨value (whole ++ fraction), e - fraction.length⟩

/-- The bits of the double nearest to a decimal.  Far outside the range of doubles the answer is
known from the place of the first digit alone, whatever the exponent. -/
def nearestBits (d : Decimal) : Nat :=
  let first := ((Nat.toDigits 10 d.digits).length : Int) + d.exponent
  if d.digits = 0 ∨ first < -400 then 0
  else if 400 < first then Binary.infinity
  else if 0 ≤ d.exponent then Binary.nearest (d.digits * Nat.pow 10 d.exponent.toNat) 1
  else Binary.nearest d.digits (Nat.pow 10 (-d.exponent).toNat)

/-- A decimal as the nearest double. -/
def decimal? (text : String) : Option Float :=
  let (negative, cs) := splitSign text.toList
  (unsigned? cs).map fun d ↦
    let bits := nearestBits d
    Float.ofBits (if negative then bits + Binary.signBit else bits).toUInt64

/-! ### Which texts are read

Both readers are more generous than the numbers of a source need: they take a sign, and a decimal
takes an exponent.  A source writes digits only, or digits, a point and digits.  The first are read
by `integer?` as long as the number fits (`integer?_of_digits`), the second by `decimal?` always,
however many digits there are (`decimal?_of_digits`). -/

theorem natural?_of_digits {cs : List Char} (hne : cs ≠ []) (hdigits : ∀ c ∈ cs, c.isDigit) :
    natural? cs = some (value cs) :=
  if_pos ⟨hne, List.all_eq_true.2 hdigits⟩

/-- A digit is no sign. -/
theorem splitSign_of_digits {cs : List Char} (hne : cs ≠ []) (hdigits : ∀ c ∈ cs, c.isDigit)
    (ds : List Char) : splitSign (cs ++ ds) = (false, cs ++ ds) := by
  obtain ⟨c, cs, rfl⟩ := List.exists_cons_of_ne_nil hne
  have hc := hdigits c List.mem_cons_self
  have hminus : c ≠ '-' := fun heq ↦ absurd (heq ▸ hc) (by decide)
  have hplus : c ≠ '+' := fun heq ↦ absurd (heq ▸ hc) (by decide)
  simp [splitSign, hminus, hplus]

/-- **A row of digits is read as an integer exactly if it is at most `2 ^ 63 - 1`,** and then as the
integer that it is. -/
theorem integer?_of_digits {cs : List Char} (hne : cs ≠ []) (hdigits : ∀ c ∈ cs, c.isDigit) :
    integer? (String.ofList cs)
      = if value cs < Nat.pow 2 63 then some (Int64.ofNat (value cs)) else none := by
  have hsign := splitSign_of_digits hne hdigits []
  rw [List.append_nil] at hsign
  simp [integer?, String.toList_ofList, hsign, natural?_of_digits hne hdigits]

/-- **Digits, a point and digits are always read,** as the double nearest to the number that they
spell: the digits without the point are a whole number, and each digit behind the point makes it ten
times smaller. -/
theorem decimal?_of_digits {cs ds : List Char} (hne : cs ≠ []) (hcs : ∀ c ∈ cs, c.isDigit)
    (hds : ∀ c ∈ ds, c.isDigit) : decimal? (String.ofList (cs ++ '.' :: ds))
      = some (Float.ofBits (nearestBits ⟨value (cs ++ ds), -(ds.length : Int)⟩).toUInt64) := by
  have hpoint : ¬ ('.'.isDigit = true) := by decide
  have hwhole : (cs ++ '.' :: ds).takeWhile Char.isDigit = cs := by
    rw [List.takeWhile_append_of_pos hcs, List.takeWhile_cons_of_neg hpoint, List.append_nil]
  have hafter : (cs ++ '.' :: ds).dropWhile Char.isDigit = '.' :: ds := by
    rw [List.dropWhile_append_of_pos hcs, List.dropWhile_cons_of_neg hpoint]
  have hfraction : ds.takeWhile Char.isDigit = ds := by
    rw [← List.append_nil ds, List.takeWhile_append_of_pos hds, List.takeWhile_nil]
  have hrest : ds.dropWhile Char.isDigit = [] := by
    rw [← List.append_nil ds, List.dropWhile_append_of_pos hds, List.dropWhile_nil]
  simp [decimal?, String.toList_ofList, splitSign_of_digits hne hcs, unsigned?, hwhole, hafter,
    hfraction, hrest, hne]

/-! ## Writing

The digits are those of `Decimal.shortest`, and only the notation is chosen here. -/

/-- Where positional notation ends and how the exponent is marked. -/
structure Layout where
  /-- The lowest place of the first digit that is still written positionally; the place before the
  point is `0`. -/
  lowest : Int
  /-- The highest such place. -/
  highest : Int
  /-- What stands before the exponent. -/
  mark : String

/-- From a ten-thousandth up to, and without, ten to the sixteenth. -/
def standard : Layout := ⟨-4, 15, "e"⟩

/-- The digits with the point before the last `places` of them, filled up with zeros. -/
def positional (digits : List Char) (e : Int) : String :=
  if 0 ≤ e then String.ofList (digits ++ List.replicate e.toNat '0') ++ ".0"
  else
    let places := (-e).toNat
    let padded := digits.leftpad (places + 1) '0'
    String.ofList (padded.take (padded.length - places)) ++ "."
      ++ String.ofList (padded.drop (padded.length - places))

/-- One digit, the point and the other digits if there are any, and the exponent. -/
def scientific (l : Layout) (digits : List Char) (place : Int) : String :=
  let tail := match digits.drop 1 with
    | [] => ""
    | ds => "." ++ String.ofList ds
  String.ofList (digits.take 1) ++ tail ++ l.mark ++ toString place

/-- A positive decimal in the notation that the place of its first digit asks for. -/
def write (l : Layout) (d : Decimal) : String :=
  let digits := Nat.toDigits 10 d.digits
  let place := (digits.length : Int) - 1 + d.exponent
  if l.lowest ≤ place ∧ place ≤ l.highest then positional digits d.exponent
  else scientific l digits place

/-- The text of a double: the fewest digits that read back to it. -/
def float (x : Float) : String :=
  let bits := x.toBits.toNat
  let size := bits % Binary.signBit
  let sign := if bits = size then "" else "-"
  if Binary.infinity < size then "NaN"
  else if size = Binary.infinity then sign ++ "inf"
  else if size = 0 then sign ++ "0.0"
  else sign ++ write standard (Decimal.shortest size)

end Numeral
end Typewright
