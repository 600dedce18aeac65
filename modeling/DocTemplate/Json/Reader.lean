import DocTemplate.Json.Basic
import DocTemplate.Json.Number

/-! Reading JSON text. The text is first cut into brackets, separators and leaves, from which the
document is then built. -/

namespace DocTemplate.Json

/-- A bracket, a separator, or a value without members. -/
inductive Token where
  | openArray
  | closeArray
  | openObject
  | closeObject
  | colon
  | comma
  | leaf (value : Json)
deriving Repr

namespace Token

/-- The blanks between tokens. -/
def isBlank (c : Char) : Bool := c == ' ' || c == '\n' || c == '\t' || c == '\r'

/-- The 16-bit unit that four hexadecimal digits denote. -/
def unit? (a b c d : Char) : Option Nat := Text.natOfHex? [a, b, c, d]

/-- The character that an escape of one letter denotes. -/
def escaped? : Char → Option Char
  | '"' => some '"'
  | '\\' => some '\\'
  | '/' => some '/'
  | 'b' => some '\x08'
  | 'f' => some '\x0c'
  | 'n' => some '\n'
  | 'r' => some '\r'
  | 't' => some '\t'
  | _ => none

def isHighSurrogate (u : Nat) : Bool := 0xd800 ≤ u && u < 0xdc00

def isLowSurrogate (u : Nat) : Bool := 0xdc00 ≤ u && u < 0xe000

def ofPair (high low : Nat) : Char :=
  Char.ofNat (0x10000 + (high - 0xd800) * 0x400 + (low - 0xdc00))

/-- A string read in part: its characters so far, last first; whether no half of a surrogate pair
stood alone; and the first half of a pair whose second half may follow. -/
structure Quoted where
  read : List Char
  paired : Bool
  high : Option Nat

namespace Quoted

def empty : Quoted := ⟨[], true, none⟩

/-- Counts a first half that is still waiting as one that stands alone. -/
def settle (q : Quoted) : Quoted := ⟨q.read, q.paired && q.high.isNone, none⟩

def push (q : Quoted) (c : Char) : Quoted := { q.settle with read := c :: q.read }

/-- Adds a 16-bit unit. -/
def pushUnit (q : Quoted) (u : Nat) : Quoted :=
  if isHighSurrogate u then { q.settle with high := some u }
  else if isLowSurrogate u then
    match q.high with
    | some high => ⟨ofPair high u :: q.read, q.paired, none⟩
    | none => { q with paired := false }
  else q.push (Char.ofNat u)

def toJson (q : Quoted) : Json :=
  let q := q.settle
  if q.paired then .string (String.ofList q.read.reverse) else .unpaired

end Quoted

/-- Reads a string after its first quote. -/
def string? (q : Quoted) : List Char → Option (Json × List Char)
  | '"' :: cs => some (q.toJson, cs)
  | '\\' :: 'u' :: a :: b :: c :: d :: cs =>
    match unit? a b c d with
    | some u => string? (q.pushUnit u) cs
    | none => none
  | '\\' :: c :: cs =>
    match escaped? c with
    | some c => string? (q.push c) cs
    | none => none
  | c :: cs => if c < ' ' then none else string? (q.push c) cs
  | [] => none

/-- Splits off the digits that a text starts with, at least one. -/
def digits? (cs : List Char) : Option (List Char × List Char) :=
  match cs.takeWhile Char.isDigit with
  | [] => none
  | ds => some (ds, cs.dropWhile Char.isDigit)

/-- Digits without a leading zero, or zero alone. -/
def whole? : List Char → Option (List Char × List Char)
  | '0' :: cs => some (['0'], cs)
  | cs => digits? cs

/-- The point and the digits after it, if the text goes on with a point. -/
def fraction? : List Char → Option (List Char × List Char)
  | '.' :: cs => do
    let (ds, cs) ← digits? cs
    return ('.' :: ds, cs)
  | cs => some ([], cs)

/-- The exponent with its mark, if the text goes on with one. -/
def exponent? : List Char → Option (List Char × List Char)
  | c :: cs =>
    if c == 'e' || c == 'E' then
      match cs with
      | s :: cs' =>
        if s == '+' || s == '-' then do
          let (ds, cs) ← digits? cs'
          return (c :: s :: ds, cs)
        else do
          let (ds, cs) ← digits? cs
          return (c :: ds, cs)
      | [] => none
    else some ([], c :: cs)
  | [] => some ([], [])

/-- Reads a number, which is kept as written. -/
def number? (cs : List Char) : Option (Json × List Char) := do
  let (sign, cs) := match cs with
    | '-' :: cs => (['-'], cs)
    | cs => ([], cs)
  let (whole, cs) ← whole? cs
  let (fraction, cs) ← fraction? cs
  let (exponent, cs) ← exponent? cs
  return (.number (String.ofList (sign ++ whole ++ fraction ++ exponent)), cs)

/-- Reads one token at the start of a text. -/
def next? : List Char → Option (Token × List Char)
  | '[' :: cs => some (.openArray, cs)
  | ']' :: cs => some (.closeArray, cs)
  | '{' :: cs => some (.openObject, cs)
  | '}' :: cs => some (.closeObject, cs)
  | ':' :: cs => some (.colon, cs)
  | ',' :: cs => some (.comma, cs)
  | 'n' :: 'u' :: 'l' :: 'l' :: cs => some (.leaf .null, cs)
  | 't' :: 'r' :: 'u' :: 'e' :: cs => some (.leaf (.bool true), cs)
  | 'f' :: 'a' :: 'l' :: 's' :: 'e' :: cs => some (.leaf (.bool false), cs)
  | '"' :: cs => do
    let (s, cs) ← string? .empty cs
    return (.leaf s, cs)
  | cs => do
    let (n, cs) ← number? cs
    return (.leaf n, cs)

/-- Cuts a text into at most `fuel` tokens. -/
def readAll? : Nat → List Char → Option (List Token)
  | 0, _ => none
  | fuel + 1, cs =>
    match cs.dropWhile isBlank with
    | [] => some []
    | cs => do
      let (t, cs) ← next? cs
      return t :: (← readAll? fuel cs)

end Token

mutual

/-- Builds the document that a token list starts with. The fuel bounds the nesting of the calls. -/
def value? : Nat → List Token → Option (Json × List Token)
  | _ + 1, .leaf value :: ts => some (value, ts)
  | _ + 1, .openArray :: .closeArray :: ts => some (.array [], ts)
  | fuel + 1, .openArray :: ts => items? fuel [] ts
  | _ + 1, .openObject :: .closeObject :: ts => some (.object [], ts)
  | fuel + 1, .openObject :: ts => fields? fuel [] ts
  | _, _ => none

/-- Builds the items up to the end of an array, after those in `read`, last first. -/
def items? : Nat → List Json → List Token → Option (Json × List Token)
  | 0, _, _ => none
  | fuel + 1, read, ts => do
    let (item, ts) ← value? fuel ts
    match ts with
    | .comma :: ts => items? fuel (item :: read) ts
    | .closeArray :: ts => return (.array (item :: read).reverse, ts)
    | _ => none

/-- Builds the fields up to the end of an object, after those in `read`, last first. -/
def fields? : Nat → List (String × Json) → List Token → Option (Json × List Token)
  | fuel + 1, read, .leaf (.string key) :: .colon :: ts => do
    let (value, ts) ← value? fuel ts
    match ts with
    | .comma :: ts => fields? fuel ((key, value) :: read) ts
    | .closeObject :: ts => return (.object ((key, value) :: read).reverse, ts)
    | _ => none
  | _, _, _ => none

end

/-- Reads a text as one document. Each token has a character and each call a token of its own, so
the lengths are fuel enough. -/
def parse? (text : String) : Option Json := do
  let cs := text.toList
  let ts ← Token.readAll? (cs.length + 1) cs
  match ← value? (ts.length + 1) ts with
  | (value, []) => some value
  | _ => none

mutual

/-- The number of containers around the innermost member. -/
def depth : Json → Nat
  | .array items => itemsDepth items + 1
  | .object fields => fieldsDepth fields + 1
  | .null | .bool _ | .number _ | .string _ | .unpaired => 0

def itemsDepth : List Json → Nat
  | [] => 0
  | item :: items => max item.depth (itemsDepth items)

def fieldsDepth : List (String × Json) → Nat
  | [] => 0
  | (_, value) :: fields => max value.depth (fieldsDepth fields)

end

mutual

/-- The value of a document, if its strings are texts and its numbers are in range. -/
def toValue? : Json → Option Value
  | .null => some .null
  | .bool b => some (.bool b)
  | .number text => (Literal.ofText text).value?.map .number
  | .string s => some (.string s)
  | .unpaired => none
  | .array items => (itemsToValues? items).map .sequence
  | .object fields => (fieldsToValues? fields).map fun fields => .mapping (.ofList fields)

def itemsToValues? : List Json → Option (List Value)
  | [] => some []
  | item :: items => do
    let v ← item.toValue?
    return v :: (← itemsToValues? items)

def fieldsToValues? : List (String × Json) → Option (List (String × Value))
  | [] => some []
  | (key, value) :: fields => do
    let v ← value.toValue?
    return (key, v) :: (← fieldsToValues? fields)

end

/-- The greatest nesting of containers in a data file. -/
def greatestDepth : Nat := 127

def readValue? (text : String) : Option Value := do
  let document ← parse? text
  if document.depth ≤ greatestDepth then document.toValue? else none

end DocTemplate.Json
