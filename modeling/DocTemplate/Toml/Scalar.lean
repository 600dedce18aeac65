import DocTemplate.Text.Bytes
import DocTemplate.Toml.Basic

/-! Numbers, booleans, dates and times of TOML documents: the values that are written without
quotes. -/

namespace DocTemplate.Toml

/-- Digits with single underscores between them. The underscores are dropped. -/
def digits? (isDigit : Char → Bool) (cs : List Char) : Option (List Char) :=
  let groups := Text.splitOn '_' cs
  if groups.all fun group => !group.isEmpty && group.all isDigit then some groups.flatten else none

/-- Decimal digits without a leading zero. -/
def whole? (cs : List Char) : Option (List Char) :=
  match digits? Char.isDigit cs with
  | some ('0' :: _ :: _) => none
  | digits => digits

/-- Splits a sign off; without one the number is positive. -/
def sign : List Char → Bool × List Char
  | '-' :: cs => (true, cs)
  | '+' :: cs => (false, cs)
  | cs => (false, cs)

def isOctalDigit (c : Char) : Bool := '0' ≤ c && c ≤ '7'

def isBinaryDigit (c : Char) : Bool := c == '0' || c == '1'

/-- An integer: decimal with a sign, or hexadecimal, octal or binary without. -/
def integer? (cs : List Char) : Option Int :=
  match cs with
  | '0' :: 'x' :: cs => (digits? Text.isHexDigit cs).map fun ds => Text.natOfBase 16 ds
  | '0' :: 'o' :: cs => (digits? isOctalDigit cs).map fun ds => Text.natOfBase 8 ds
  | '0' :: 'b' :: cs => (digits? isBinaryDigit cs).map fun ds => Text.natOfBase 2 ds
  | cs =>
    let (negative, cs) := sign cs
    (whole? cs).map fun ds => if negative then -(Text.natOfDigits ds : Int) else Text.natOfDigits ds

/-- The exponent of a float. Its digits may start with zeros. -/
def exponent? (cs : List Char) : Option Int :=
  let (negative, cs) := sign cs
  (digits? Char.isDigit cs).map fun ds =>
    if negative then -(Text.natOfDigits ds : Int) else Text.natOfDigits ds

/-- The text before the first character with a property, and the text after that character if there
is one. -/
def cutAt (p : Char → Bool) (cs : List Char) : List Char × Option (List Char) :=
  match cs.dropWhile fun c => !p c with
  | [] => (cs, none)
  | _ :: rest => (cs.takeWhile fun c => !p c, some rest)

/-- A float that is a number: digits with a fraction, an exponent, or both. It must not be beyond
the greatest float. -/
def number? (cs : List Char) : Option Binary64 := do
  let (negative, cs) := sign cs
  let (mantissa, exponent) := cutAt (fun c => c == 'e' || c == 'E') cs
  let (whole, fraction) := cutAt (· == '.') mantissa
  if fraction.isNone && exponent.isNone then none
  let whole ← whole? whole
  let fraction ← match fraction with
    | some fraction => digits? Char.isDigit fraction
    | none => some []
  let exponent ← match exponent with
    | some exponent => exponent? exponent
    | none => some 0
  Binary64.ofDecimal? negative (Text.natOfDigits (whole ++ fraction)) (exponent - fraction.length)

/-- Whether a text is the word for an infinite float or for no number. -/
def isNonFinite (cs : List Char) : Bool :=
  let word := String.ofList (sign cs).2
  word == "inf" || word == "nan"

/-- The value that a word without quotes denotes. -/
def scalar? (cs : List Char) : Option Toml :=
  if String.ofList cs = "true" then some (.bool true)
  else if String.ofList cs = "false" then some (.bool false)
  else if isNonFinite cs then some (.float none)
  else
    match integer? cs with
    | some n => if isInteger n then some (.integer n) else none
    | none =>
      match number? cs with
      | some x => some (.float (some x))
      | none => (DateTime.ofText? cs).map .dateTime

/-- The characters of a word without quotes. -/
def isScalarChar (c : Char) : Bool :=
  c.isAlphanum || c == '_' || c == '-' || c == '+' || c == '.' || c == ':'

/-- Splits off a word without quotes. One blank may stand inside it, between a date and a time. -/
def word (cs : List Char) : List Char × List Char :=
  let first := cs.takeWhile isScalarChar
  let rest := cs.dropWhile isScalarChar
  match date? first, rest with
  | some (_, []), ' ' :: c :: rest =>
    if c.isDigit then
      (first ++ ' ' :: (c :: rest).takeWhile isScalarChar, (c :: rest).dropWhile isScalarChar)
    else (first, ' ' :: c :: rest)
  | _, rest => (first, rest)

end DocTemplate.Toml
