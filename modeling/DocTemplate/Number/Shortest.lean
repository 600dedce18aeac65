import DocTemplate.Number.Binary64

/-! The shortest decimal that reads back as a given binary64 number, and its text.

The numbers that round to `m * 2 ^ e` form an interval, which contains its ends when `m` is even.
The coarsest decimal grid with a point in that interval has one next to the number itself, so two
candidates are tried on each grid, from one digit to seventeen. -/

namespace DocTemplate

/-- The number `significand * 10 ^ exponent`; the significand has no trailing zeros. -/
structure Decimal where
  significand : Nat
  exponent : Int
deriving DecidableEq, Repr

namespace Decimal

/-- Drops at most `fuel` trailing zeros of a significand. -/
def trim : Nat → Decimal → Decimal
  | 0, d => d
  | fuel + 1, d =>
    if d.significand ≠ 0 ∧ d.significand % 10 = 0 then
      trim fuel ⟨d.significand / 10, d.exponent + 1⟩
    else d

/-- How a decimal is written: positionally if the exponent of its first digit is at least
`leastPositional` and below `firstScientific`, and otherwise with an exponent. -/
structure Layout where
  leastPositional : Int
  firstScientific : Int
  exponentMark : String
  positiveSign : String

/-- The significand's digits, with at least one. -/
def digits (d : Decimal) : List Char := Nat.toDigits 10 d.significand

/-- The power of ten of the first digit. -/
def leadingExponent (d : Decimal) : Int := d.exponent + d.digits.length - 1

/-- The text of a decimal. Positional text always has a point with a digit on each side. -/
def text (layout : Layout) (d : Decimal) : String :=
  let ds := d.digits
  let e := d.leadingExponent
  if layout.leastPositional ≤ e ∧ e < layout.firstScientific then
    if e < 0 then
      String.ofList ('0' :: '.' :: List.replicate (-e - 1).toNat '0' ++ ds)
    else
      let whole := e.toNat + 1
      let fraction := ds.drop whole
      String.ofList (ds.take whole ++ List.replicate (whole - ds.length) '0' ++
        '.' :: (if fraction.isEmpty then ['0'] else fraction))
  else
    let mantissa := match ds with
      | [] => []
      | [c] => [c]
      | c :: cs => c :: '.' :: cs
    let sign := if 0 ≤ e then layout.positiveSign else "-"
    String.ofList mantissa ++ layout.exponentMark ++ sign ++ toString e.natAbs

end Decimal

namespace Binary64

/-- The interval of numbers that round to `x`, in quarters of its last place: its low end, `x`
itself and its high end. Below a power of two the numbers lie twice as close. -/
def quarters (x : Binary64) : Nat × Nat × Nat :=
  let low := if x.mantissa = leastMantissa ∧ leastExponent < x.exponent then 1 else 2
  (4 * x.mantissa - low, 4 * x.mantissa, 4 * x.mantissa + 2)

/-- The nearer of the two points next to `x` on the grid of step `10 ^ k` that lie in the interval
of `x`, if one does; of two at the same distance the even one. -/
def candidate? (x : Binary64) (k : Int) : Option Nat :=
  let (low, mid, high) := x.quarters
  -- In units of `10 ^ k` the quarter is `num / den`.
  let num := Nat.pow 2 (x.exponent - 2).toNat * Nat.pow 10 (-k).toNat
  let den := Nat.pow 2 (2 - x.exponent).toNat * Nat.pow 10 k.toNat
  let below := mid * num / den
  let above := below + 1
  let hit (point : Nat) : Bool :=
    if x.mantissa % 2 = 0 then low * num ≤ point * den ∧ point * den ≤ high * num
    else low * num < point * den ∧ point * den < high * num
  let distanceBelow := mid * num - below * den
  let distanceAbove := above * den - mid * num
  match hit below, hit above with
  | true, true =>
    if distanceBelow < distanceAbove ∨ (distanceBelow = distanceAbove ∧ below % 2 = 0) then
      some below
    else some above
  | true, false => some below
  | false, true => some above
  | false, false => none

/-- The exponent of the first decimal digit of a number other than zero. -/
def leadingExponent (x : Binary64) : Int :=
  let (n, d) := x.ratio
  -- The digit counts give the exponent, or one more than it.
  let guess : Int := (digitCount n : Int) - digitCount d
  if n * Nat.pow 10 (-guess).toNat < d * Nat.pow 10 guess.toNat then guess - 1 else guess

/-- Tries grids of more and more digits, starting with `count`. -/
def shortestFrom (x : Binary64) (leading : Int) (count : Nat) : Nat → Decimal
  | 0 => ⟨0, 0⟩
  | fuel + 1 =>
    let k := leading + 1 - count
    match x.candidate? k with
    | some point => Decimal.trim 20 ⟨point, k⟩
    | none => x.shortestFrom leading (count + 1) fuel

/-- The decimal of fewest digits that rounds to the magnitude of `x`, and of those the nearest. -/
def shortest (x : Binary64) : Decimal :=
  if x.isZero then ⟨0, 0⟩ else x.shortestFrom x.leadingExponent 1 17

/-- Numbers in data are positional from `10 ^ -5` to below `10 ^ 16`. -/
def layout : Decimal.Layout := ⟨-5, 16, "e", "+"⟩

/-- The number in text that reads back as the same number. -/
def text (x : Binary64) : String :=
  (if x.negative then "-" else "") ++ x.shortest.text layout

end Binary64
end DocTemplate
