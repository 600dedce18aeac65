import DocTemplate.Data.Value
import DocTemplate.Text.Digits

/-! The number that JSON digits denote.

Whole numbers that fit 64 bits are integers. All others are doubles, computed from the leading
digits that fit 64 bits by one multiplication or division with a power of ten, so that long numbers
may be off by one unit in the last place. -/

namespace DocTemplate.Json

/-- The greatest integer, and so the greatest significand. -/
def greatestInteger : Nat := Limits.unsigned64 - 1

/-- The greatest power of ten among the doubles. -/
def greatestPower : Nat := 308

/-- The power `10 ^ n` as a double, or none if it is too great. -/
def power? (n : Nat) : Option Binary64 :=
  if n ≤ greatestPower then Binary64.ofNat? (Nat.pow 10 n) else none

/-- Divides by the greatest power of ten until `exponent` is in range or nothing is left. -/
def scaleDown? (x : Binary64) (exponent : Int) : Option Binary64 :=
  if x.isZero then some x
  else if exponent < -(greatestPower : Int) then do
    let x ← x.div? (← power? greatestPower)
    scaleDown? x (exponent + greatestPower)
  else do x.div? (← power? (-exponent).toNat)
termination_by (-exponent).toNat
decreasing_by simp only [greatestPower] at *; omega

/-- The double `significand * 10 ^ exponent`, or none if it is too great. -/
def double? (negative : Bool) (significand : Nat) (exponent : Int) : Option Binary64 := do
  let x ← Binary64.ofNat? significand
  let x ←
    if exponent < 0 then scaleDown? x exponent
    else if x.isZero then some x
    else do x.mul? (← power? exponent.toNat)
  return if negative then x.neg else x

/-- Appends digits to a significand as long as it fits 64 bits. The digits left over are returned.
-/
def absorb (significand : Nat) : List Char → Nat × List Char
  | [] => (significand, [])
  | c :: cs =>
    let next := significand * 10 + (c.toNat - '0'.toNat)
    if next ≤ greatestInteger then absorb next cs else (significand, c :: cs)

/-- A number as written: its sign, the digits before and after the point, and the exponent. -/
structure Literal where
  negative : Bool
  whole : List Char
  fraction : Option (List Char)
  exponent : Option Int
deriving Repr

namespace Literal

/-- The exponent after its mark. -/
def exponentOf : List Char → Int
  | '-' :: digits => -(Text.natOfDigits digits : Int)
  | '+' :: digits | digits => Text.natOfDigits digits

/-- Takes a number apart. The text is one that the grammar of numbers admits. -/
def ofText (text : String) : Literal :=
  let (negative, cs) := match text.toList with
    | '-' :: cs => (true, cs)
    | cs => (false, cs)
  let whole := cs.takeWhile Char.isDigit
  let cs := cs.dropWhile Char.isDigit
  let (fraction, cs) := match cs with
    | '.' :: cs => (some (cs.takeWhile Char.isDigit), cs.dropWhile Char.isDigit)
    | cs => (none, cs)
  let exponent := match cs with
    | _ :: cs => some (exponentOf cs)
    | [] => none
  ⟨negative, whole, fraction, exponent⟩

/-- A whole number as written, if it is an integer of 64 bits. Minus zero is none. -/
def integer? (l : Literal) : Option Int :=
  if l.fraction.isSome || l.exponent.isSome then none
  else
    let n := Text.natOfDigits l.whole
    if l.negative then if 0 < n ∧ n ≤ Limits.signed64 then some (-n) else none
    else if n ≤ greatestInteger then some n else none

/-- The number that the literal denotes, or none if it is too great for a double. -/
def value? (l : Literal) : Option Number :=
  match l.integer? with
  | some n => some (.int n)
  | none => do
    let (significand, dropped) := absorb 0 l.whole
    let fraction := l.fraction.getD []
    let (significand, ignored) := absorb significand fraction
    let exponent : Int := dropped.length - (fraction.length - ignored.length : Nat)
    return .double (← double? l.negative significand (exponent + l.exponent.getD 0))

end Literal
end DocTemplate.Json
