/-! The bounds of whole numbers of a fixed width, and numbers written in digits. -/

namespace DocTemplate.Limits

/-- Numbers of 64 bits without a sign are below this, `2 ^ 64`. -/
def unsigned64 : Nat := 18446744073709551616

/-- Numbers of 64 bits with a sign are below this, `2 ^ 63`, and not below its negative. -/
def signed64 : Nat := 9223372036854775808

/-- Numbers of 128 bits without a sign are below this, `2 ^ 128`. -/
def unsigned128 : Nat := 340282366920938463463374607431768211456

/-- Numbers of 128 bits with a sign are below this, `2 ^ 127`, and not below its negative. -/
def signed128 : Nat := 170141183460469231731687303715884105728

end DocTemplate.Limits

namespace DocTemplate.Text

def hexValue? (c : Char) : Option Nat :=
  if c.isDigit then some (c.toNat - '0'.toNat)
  else if 'a' ≤ c ∧ c ≤ 'f' then some (c.toNat - 'a'.toNat + 10)
  else if 'A' ≤ c ∧ c ≤ 'F' then some (c.toNat - 'A'.toNat + 10)
  else none

def isHexDigit (c : Char) : Bool := (hexValue? c).isSome

/-- The number that digits denote in a base of at most sixteen. -/
def natOfBase (base : Nat) (digits : List Char) : Nat :=
  digits.foldl (fun n c => n * base + (hexValue? c).getD 0) 0

def natOfDigits (digits : List Char) : Nat :=
  digits.foldl (fun n c => n * 10 + (c.toNat - '0'.toNat)) 0

/-- A number with one more digit at its end, unless that takes more than 64 bits. -/
def withDigit? (n : UInt64) (c : Char) : Option UInt64 :=
  let digit := c.toNat - '0'.toNat
  if n.toNat * 10 + digit < Limits.unsigned64 then some (n * 10 + digit.toUInt64) else none

/-- The number that digits denote, if it has no more than 64 bits. -/
def wordOfDigits? (digits : List Char) : Option UInt64 := digits.foldlM withDigit? 0

/-- The number that hexadecimal digits denote, if they are such digits. -/
def natOfHex? (digits : List Char) : Option Nat :=
  if digits.all isHexDigit then some (natOfBase 16 digits) else none

/-- The character with a code, if there is one. -/
def charOfCode? (code : Nat) : Option Char :=
  if code.isValidChar then some (Char.ofNat code) else none

end DocTemplate.Text
