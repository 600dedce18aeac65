/-! Finite binary64 numbers, as an exact sign, mantissa and exponent.

Every operation computes the exact quotient of two natural numbers and rounds once, to the nearest
number and to an even mantissa on a tie. -/

namespace DocTemplate

/-- The number `mantissa * 2 ^ exponent`, negated if `negative`. The mantissa is below `2 ^ 53`, and
at least `2 ^ 52` unless the exponent is the least, -1074. -/
structure Binary64 where
  negative : Bool
  mantissa : Nat
  exponent : Int
deriving DecidableEq, Repr

namespace Binary64

/-- The least number of 53 bits, `2 ^ 52`. -/
def leastMantissa : Nat := 4503599627370496

def leastExponent : Int := -1074

def greatestExponent : Int := 971

/-- A zero keeps its sign. -/
def zero (negative : Bool) : Binary64 := ⟨negative, 0, leastExponent⟩

def isZero (x : Binary64) : Bool := x.mantissa == 0

def neg (x : Binary64) : Binary64 := { x with negative := !x.negative }

/-- The quotient `num / den` as a fraction of numerator and denominator in units of `2 ^ e`. -/
def inUnits (num den : Nat) (e : Int) : Nat × Nat :=
  (num * Nat.pow 2 (-e).toNat, den * Nat.pow 2 e.toNat)

/-- The quotient of two natural numbers, to the nearest and on a tie to the even one. -/
def roundDiv (num den : Nat) : Nat :=
  let q := num / den
  let r := num % den
  if den < 2 * r ∨ (2 * r = den ∧ q % 2 = 1) then q + 1 else q

/-- The exponent at which `num / den` has a mantissa of 53 bits, or the least exponent. -/
def exponentOf (num den : Nat) : Int :=
  let e : Int := (Nat.log2 num : Int) - Nat.log2 den - 52
  let (n, d) := inUnits num den e
  max leastExponent (if n / d < leastMantissa then e - 1 else e)

/-- The number nearest to `num / den`, or none if that is beyond the greatest. -/
def ofRatio? (negative : Bool) (num den : Nat) : Option Binary64 :=
  if num = 0 then some (zero negative)
  else
    let e := exponentOf num den
    let (n, d) := inUnits num den e
    let m := roundDiv n d
    let x : Binary64 :=
      if m = 2 * leastMantissa then ⟨negative, leastMantissa, e + 1⟩ else ⟨negative, m, e⟩
    if greatestExponent < x.exponent then none else some x

def ofNat? (n : Nat) : Option Binary64 := ofRatio? false n 1

/-- The magnitude of a number as numerator and denominator. -/
def ratio (x : Binary64) : Nat × Nat :=
  (x.mantissa * Nat.pow 2 x.exponent.toNat, Nat.pow 2 (-x.exponent).toNat)

/-- The product, or none if it is beyond the greatest number. -/
def mul? (x y : Binary64) : Option Binary64 :=
  let (n, d) := x.ratio
  let (n', d') := y.ratio
  ofRatio? (x.negative != y.negative) (n * n') (d * d')

/-- The quotient, or none if it is beyond the greatest number. -/
def div? (x y : Binary64) : Option Binary64 :=
  let (n, d) := x.ratio
  let (n', d') := y.ratio
  ofRatio? (x.negative != y.negative) (n * d') (d * n')

/-- The number of decimal digits of a natural number; zero has none. -/
def digitCount (n : Nat) : Nat := if n = 0 then 0 else (Nat.toDigits 10 n).length

/-- The number nearest to `significand * 10 ^ exponent`, or none if that is beyond the greatest.
Far outside the range the power of ten is not computed. -/
def ofDecimal? (negative : Bool) (significand : Nat) (exponent : Int) : Option Binary64 :=
  if significand = 0 then some (zero negative)
  else
    let magnitude := exponent + digitCount significand
    if 310 < magnitude then none
    else if magnitude < -330 then some (zero negative)
    else ofRatio? negative (significand * Nat.pow 10 exponent.toNat)
      (Nat.pow 10 (-exponent).toNat)

end Binary64
end DocTemplate
