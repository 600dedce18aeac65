import DocTemplate.Text.Digits

/-! Dates and times of TOML documents. Each of the parts may be absent, but a date and time without
a time has no offset. -/

namespace DocTemplate.Toml

structure Date where
  year : Nat
  month : Nat
  day : Nat
deriving DecidableEq, Repr

/-- A time of day. Seconds may be left out, and so may their fraction. -/
structure Time where
  hour : Nat
  minute : Nat
  second : Option Nat
  nanosecond : Option Nat
deriving DecidableEq, Repr

/-- The distance from universal time. -/
inductive Offset where
  | utc
  | minutes (m : Int)
deriving DecidableEq, Repr

structure DateTime where
  date : Option Date
  time : Option Time
  offset : Option Offset
deriving DecidableEq, Repr

/-- A number in at least `width` digits. -/
def padded (width n : Nat) : String :=
  let digits := Nat.toDigits 10 n
  String.ofList (List.replicate (width - digits.length) '0' ++ digits)

/-! ### Reading -/

/-- Two digits that denote a number in a range. -/
def twoDigits? (least greatest : Nat) : List Char → Option (Nat × List Char)
  | a :: b :: cs =>
    let n := Text.natOfDigits [a, b]
    if a.isDigit && b.isDigit && least ≤ n && n ≤ greatest then some (n, cs) else none
  | _ => none

def isLeapYear (year : Nat) : Bool := year % 4 == 0 && (year % 100 != 0 || year % 400 == 0)

def daysOfMonth (year month : Nat) : Nat :=
  match month with
  | 2 => if isLeapYear year then 29 else 28
  | 4 | 6 | 9 | 11 => 30
  | _ => 31

def date? : List Char → Option (Date × List Char)
  | a :: b :: c :: d :: '-' :: cs => do
    if !([a, b, c, d].all Char.isDigit) then none
    let year := Text.natOfDigits [a, b, c, d]
    let (month, cs) ← twoDigits? 1 12 cs
    match cs with
    | '-' :: cs => do
      let (day, cs) ← twoDigits? 1 (daysOfMonth year month) cs
      return (⟨year, month, day⟩, cs)
    | _ => none
  | _ => none

/-- The nanoseconds of a fraction; further digits are dropped. -/
def nanoseconds (digits : List Char) : Nat :=
  let kept := digits.take 9
  Text.natOfDigits (kept ++ List.replicate (9 - kept.length) '0')

/-- The fraction of a second, if the text goes on with one. -/
def fraction? : List Char → Option (Option Nat × List Char)
  | '.' :: cs =>
    match cs.takeWhile Char.isDigit with
    | [] => none
    | digits => some (some (nanoseconds digits), cs.dropWhile Char.isDigit)
  | cs => some (none, cs)

/-- A time of day. A minute may have sixty-one seconds. -/
def time? (cs : List Char) : Option (Time × List Char) := do
  let (hour, cs) ← twoDigits? 0 23 cs
  match cs with
  | ':' :: cs => do
    let (minute, cs) ← twoDigits? 0 59 cs
    match cs with
    | ':' :: cs => do
      let (second, cs) ← twoDigits? 0 60 cs
      let (nanosecond, cs) ← fraction? cs
      return (⟨hour, minute, some second, nanosecond⟩, cs)
    | cs => return (⟨hour, minute, none, none⟩, cs)
  | _ => none

/-- The distance that a sign, hours and minutes denote. -/
def distance? (sign : Int) (cs : List Char) : Option (Option Offset) := do
  let (hours, cs) ← twoDigits? 0 23 cs
  match cs with
  | ':' :: cs => do
    let (minutes, cs) ← twoDigits? 0 59 cs
    if cs.isEmpty then some (some (.minutes (sign * (hours * 60 + minutes)))) else none
  | _ => none

/-- The offset that a text consists of; the empty text is none. -/
def offset? : List Char → Option (Option Offset)
  | [] => some none
  | ['Z'] | ['z'] => some (some .utc)
  | '+' :: cs => distance? 1 cs
  | '-' :: cs => distance? (-1) cs
  | _ => none

/-- Whether a character may stand between a date and a time. -/
def isDateTimeMark (c : Char) : Bool := c == 'T' || c == 't' || c == ' '

namespace DateTime

/-- Reads a whole text as a date, a time, or both. -/
def ofText? (cs : List Char) : Option DateTime :=
  match date? cs with
  | some (date, []) => some ⟨some date, none, none⟩
  | some (date, mark :: cs) => do
    if !isDateTimeMark mark then none
    let (time, cs) ← time? cs
    return ⟨some date, some time, ← offset? cs⟩
  | none => do
    match ← time? cs with
    | (time, []) => return ⟨none, some time, none⟩
    | _ => none

end DateTime

/-! ### Writing -/

def Date.text (d : Date) : String :=
  padded 4 d.year ++ "-" ++ padded 2 d.month ++ "-" ++ padded 2 d.day

/-- The digits of a fraction without the zeros at its end, but at least one digit. -/
def fractionText (nanosecond : Nat) : String :=
  let digits := (padded 9 nanosecond).toList.reverse.dropWhile (· == '0')
  if digits.isEmpty then "0" else String.ofList digits.reverse

def Time.text (t : Time) : String :=
  padded 2 t.hour ++ ":" ++ padded 2 t.minute ++
    (match t.second with
      | some second => ":" ++ padded 2 second
      | none => "") ++
    (match t.nanosecond with
      | some nanosecond => "." ++ fractionText nanosecond
      | none => "")

def Offset.text : Offset → String
  | .utc => "Z"
  | .minutes m =>
    (if m < 0 then "-" else "+") ++ padded 2 (m.natAbs / 60) ++ ":" ++ padded 2 (m.natAbs % 60)

namespace DateTime

/-- The parts that are there, with a mark between a date and a time. -/
def text (d : DateTime) : String :=
  ((d.date.map Date.text).getD "") ++
    (if d.date.isSome && d.time.isSome then "T" else "") ++
    ((d.time.map Time.text).getD "") ++
    ((d.offset.map Offset.text).getD "")

end DateTime
end DocTemplate.Toml
