import DocTemplate.Text.Digits

/-! Quoted texts of TOML documents.

A basic text, in double quotes, has escapes; a literal one, in single quotes, has none. Either may
be written over several lines between three quotes. -/

namespace DocTemplate.Toml

/-- Whether a character may stand in a text or a comment; of the control characters only the tab. -/
def isPlain (c : Char) : Bool := c == '\t' || (' ' ≤ c && c != '\x7f')

def isBlank (c : Char) : Bool := c == ' ' || c == '\t'

/-- The character that an escape of one letter denotes. -/
def escaped? : Char → Option Char
  | '"' => some '"'
  | '\\' => some '\\'
  | 'b' => some '\x08'
  | 'e' => some '\x1b'
  | 'f' => some '\x0c'
  | 'n' => some '\n'
  | 'r' => some '\r'
  | 't' => some '\t'
  | _ => none

/-- The number of hexadecimal digits after an escape letter. -/
def codeLength? : Char → Option Nat
  | 'x' => some 2
  | 'u' => some 4
  | 'U' => some 8
  | _ => none

def charOfHex? (digits : List Char) : Option Char := do
  Text.charOfCode? (← Text.natOfHex? digits)

/-- Reads an escape after its backslash: the character and how much text it took. -/
def escape? : List Char → Option (Char × Nat)
  | [] => none
  | c :: cs =>
    match codeLength? c with
    | some n => if n ≤ cs.length then (charOfHex? (cs.take n)).map (·, n + 1) else none
    | none => (escaped? c).map (·, 1)

/-- Reads a basic text of one line after its quote. `read` holds the characters so far, last first,
and `skip` is the length of the escape that was just read. -/
def basic? (read : List Char) (skip : Nat) : List Char → Option (List Char × List Char)
  | [] => none
  | c :: cs =>
    match skip with
    | skip + 1 => basic? read skip cs
    | 0 =>
      if c = '"' then some (read.reverse, cs)
      else if c = '\\' then
        match escape? cs with
        | some (c, length) => basic? (c :: read) length cs
        | none => none
      else if isPlain c then basic? (c :: read) 0 cs
      else none

/-- Reads a literal text of one line after its quote. -/
def literal? (read : List Char) : List Char → Option (List Char × List Char)
  | [] => none
  | c :: cs =>
    if c = '\'' then some (read.reverse, cs)
    else if isPlain c then literal? (c :: read) cs
    else none

/-- Reads the end of a text over several lines: three quotes, before which one or two more belong to
the text. -/
def closing? (quote : Char) (cs : List Char) : Option (List Char × List Char) :=
  let quotes := (cs.take 5).takeWhile (· == quote)
  if 3 ≤ quotes.length then some (quotes.drop 3, cs.drop quotes.length) else none

/-- Whether a text starts with an end of line. -/
def startsLine : List Char → Bool
  | '\n' :: _ | '\r' :: '\n' :: _ => true
  | _ => false

/-- How a text over several lines goes on: with text, with blanks and line ends to leave out, or
with the rest of an escape. -/
inductive Lead where
  | text
  | margin
  | escape (length : Nat)

/-- Reads a basic text over several lines after its quotes. A backslash at the end of a line removes
the line end and all blanks and line ends after it. -/
def basicLines? (read : List Char) (lead : Lead) : List Char → Option (List Char × List Char)
  | [] => none
  | c :: cs =>
    match lead with
    | .escape (length + 1) => basicLines? read (.escape length) cs
    | .margin | .escape 0 | .text =>
      let margin := lead matches .margin
      match closing? '"' (c :: cs) with
      | some (quotes, rest) => some (read.reverse ++ quotes, rest)
      | none =>
        if c = '\n' then basicLines? (if margin then read else '\n' :: read) lead cs
        else if c = '\r' then if startsLine (c :: cs) then basicLines? read lead cs else none
        else if margin && isBlank c then basicLines? read .margin cs
        else if c = '\\' then
          if startsLine (cs.dropWhile isBlank) then basicLines? read .margin cs
          else
            match escape? cs with
            | some (c, length) => basicLines? (c :: read) (.escape length) cs
            | none => none
        else if isPlain c then basicLines? (c :: read) .text cs
        else none

/-- Reads a literal text over several lines after its quotes. -/
def literalLines? (read : List Char) : List Char → Option (List Char × List Char)
  | [] => none
  | c :: cs =>
    match closing? '\'' (c :: cs) with
    | some (quotes, rest) => some (read.reverse ++ quotes, rest)
    | none =>
      if c = '\r' then if startsLine (c :: cs) then literalLines? read cs else none
      else if c = '\n' || isPlain c then literalLines? (c :: read) cs
      else none

/-- The text after an end of line at its start, which the opening quotes of several lines drop. -/
def dropLineEnd : List Char → List Char
  | '\n' :: cs | '\r' :: '\n' :: cs => cs
  | cs => cs

/-- Reads a quoted text of one line. -/
def quoted? : List Char → Option (List Char × List Char)
  | '"' :: cs => basic? [] 0 cs
  | '\'' :: cs => literal? [] cs
  | _ => none

/-- Reads a quoted text of one or several lines. -/
def quotedLines? : List Char → Option (List Char × List Char)
  | '"' :: '"' :: '"' :: cs => basicLines? [] .text (dropLineEnd cs)
  | '\'' :: '\'' :: '\'' :: cs => literalLines? [] (dropLineEnd cs)
  | cs => quoted? cs

end DocTemplate.Toml
