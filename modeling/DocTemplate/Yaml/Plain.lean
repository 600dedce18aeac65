import DocTemplate.Data.Value
import DocTemplate.Text.Digits

/-! What a plain scalar of YAML denotes: null, a boolean, a number, or else its own text. -/

namespace DocTemplate.Yaml

def isNull (text : String) : Bool :=
  text == "null" || text == "Null" || text == "NULL" || text == "~"

def bool? (text : String) : Option Bool :=
  if text == "true" || text == "True" || text == "TRUE" then some true
  else if text == "false" || text == "False" || text == "FALSE" then some false
  else none

/-- Whether a text is digits after a sign with a leading zero too many, which is no number. -/
def isPadded (text : List Char) : Bool :=
  let digits := match text with
    | '-' :: cs | '+' :: cs => cs
    | cs => cs
  match digits with
  | '0' :: c :: cs => (c :: cs).all Char.isDigit
  | _ => false

/-- The number that digits denote in a base, if there are digits and nothing else. -/
def natIn? (base : Nat) (digits : List Char) : Option Nat :=
  let isDigit (c : Char) := (Text.hexValue? c).any (· < base)
  if !digits.isEmpty && digits.all isDigit then some (Text.natOfBase base digits) else none

/-- A whole number without a sign, in a base that its first characters tell. -/
def magnitude? : List Char → Option Nat
  | '0' :: 'x' :: cs => natIn? 16 cs
  | '0' :: 'o' :: cs => natIn? 8 cs
  | '0' :: 'b' :: cs => natIn? 2 cs
  | cs => natIn? 10 cs

/-- A whole number with or without a sign. -/
def whole? (text : List Char) : Option Int :=
  if isPadded text then none
  else
    match text with
    | '-' :: cs => (magnitude? cs).map fun n => -(n : Int)
    | '+' :: cs | cs => (magnitude? cs).map Int.ofNat

/-- Whether a number is an integer of the data: one of 64 bits, with a sign or without. -/
def isInteger (n : Int) : Bool := -Limits.signed64 ≤ n && n < Limits.unsigned64

/-- Whether a number is within 128 bits, with a sign or without. -/
def isLongInteger (n : Int) : Bool := -Limits.signed128 ≤ n && n < Limits.unsigned128

/-- The exponent at the end of a decimal number; the empty text is none. -/
def exponent? : List Char → Option Int
  | [] => some 0
  | _ :: '-' :: cs => (natIn? 10 cs).map fun n => -(n : Int)
  | _ :: '+' :: cs | _ :: cs => (natIn? 10 cs).map Int.ofNat

/-- A decimal number: digits with a point before, among or after them, and an exponent. Numbers
beyond the greatest float are none. -/
def float? (text : List Char) : Option Binary64 := do
  let (negative, cs) := match text with
    | '-' :: cs => (true, cs)
    | '+' :: cs => (false, cs)
    | cs => (false, cs)
  let whole := cs.takeWhile Char.isDigit
  let cs := cs.dropWhile Char.isDigit
  let (fraction, cs) := match cs with
    | '.' :: cs => (cs.takeWhile Char.isDigit, cs.dropWhile Char.isDigit)
    | cs => ([], cs)
  if whole.isEmpty && fraction.isEmpty then none
  if !(cs.head?.all fun c => c == 'e' || c == 'E') then none
  let exponent ← exponent? cs
  Binary64.ofDecimal? negative (Text.natOfDigits (whole ++ fraction)) (exponent - fraction.length)

/-- Whether a text is the word for an infinite float or for no number. -/
def isNonFinite (text : String) : Bool :=
  [".inf", ".Inf", ".INF", "+.inf", "+.Inf", "+.INF", "-.inf", "-.Inf", "-.INF", ".nan", ".NaN",
    ".NAN"].contains text

/-- The float that a text denotes, as data; those without a number are null. -/
def floatValue? (text : String) : Option Value :=
  if isNonFinite text then some .null
  else (float? text.toList).map fun x => .number (.double x)

/-- The integer that a text denotes, as data: the outer option tells whether it is one, and the
inner one whether it is within range. A decimal one beyond 128 bits is none. -/
def integer? (text : String) : Option (Option Value) :=
  match whole? text.toList with
  | some n =>
    if isInteger n then some (some (.number (.int n)))
    else if isLongInteger n then some none
    else none
  | none => none

/-- The value of a plain scalar without a tag, if it is not an integer out of range. -/
def plainValue? (text : String) : Option Value :=
  if text.isEmpty || isNull text then some .null
  else
    match bool? text with
    | some b => some (.bool b)
    | none =>
      match integer? text with
      | some v => v
      | none =>
        if isPadded text.toList then some (.string text)
        else some ((floatValue? text).getD (.string text))

end DocTemplate.Yaml
