import DocTemplate.Text.Digits
import DocTemplate.Yaml.Cursor

/-! The texts of YAML scalars: plain, quoted, and in blocks.

A text over several lines is folded: a single line end becomes a blank, and of several line ends the
first is dropped. -/

namespace DocTemplate.Yaml

/-- A text being folded: what is settled, the blanks after it, the first line end after it, and the
line ends after that. `broken` tells that the text is at the start of a line. -/
structure Folded where
  text : String
  blanks : String
  leading : String
  trailing : String
  broken : Bool
deriving Repr

namespace Folded

def empty : Folded := ⟨"", "", "", "", false⟩

/-- Settles the blanks and line ends, which more text follows. -/
def settle (f : Folded) : Folded :=
  let gap :=
    if f.broken then
      if f.leading = "\n" then if f.trailing.isEmpty then " " else f.trailing
      else f.leading ++ f.trailing
    else f.blanks
  ⟨f.text ++ gap, "", "", "", false⟩

/-- Adds a character that is neither a blank nor a line end. -/
def push (f : Folded) (c : Char) : Folded :=
  let f := f.settle
  { f with text := f.text.push c }

/-- Adds a blank. At the start of a line blanks are dropped. -/
def pushBlank (f : Folded) (c : Char) : Folded :=
  if f.broken then f else { f with blanks := f.blanks.push c }

/-- Adds a line end. The blanks before it are dropped. -/
def pushBreak (f : Folded) (lineEnd : String) : Folded :=
  if f.broken then { f with trailing := f.trailing ++ lineEnd }
  else { f with blanks := "", leading := lineEnd, broken := true }

/-- Goes on at the start of a line after an escaped line end, which is no part of the text. -/
def pushEscapedBreak (f : Folded) : Folded := { f.settle with broken := true }

end Folded

/-! ### Quoted scalars -/

/-- The character that an escape of one letter denotes. -/
def escaped? : Char → Option Char
  | '0' => some '\x00'
  | 'a' => some '\x07'
  | 'b' => some '\x08'
  | 't' | '\t' => some '\t'
  | 'n' => some '\n'
  | 'v' => some '\x0b'
  | 'f' => some '\x0c'
  | 'r' => some '\r'
  | 'e' => some '\x1b'
  | ' ' => some ' '
  | '"' => some '"'
  | '/' => some '/'
  | '\\' => some '\\'
  | 'N' => some '\x85'
  | '_' => some '\xa0'
  | 'L' => some '\u2028'
  | 'P' => some '\u2029'
  | _ => none

/-- The number of hexadecimal digits after an escape letter. -/
def codeLength? : Char → Option Nat
  | 'x' => some 2
  | 'u' => some 4
  | 'U' => some 8
  | _ => none

/-- Reads an escape after its backslash: the character and how much text it took. -/
def escape? : List Char → Option (Char × Nat)
  | [] => none
  | c :: cs =>
    match codeLength? c with
    | some n => do
      if cs.length < n then none
      let code ← Text.natOfHex? (cs.take n)
      return (← Text.charOfCode? code, n + 1)
    | none => (escaped? c).map (·, 1)

/-- Reads a text in double quotes after the first of them. -/
def doubleQuoted? : Nat → Folded → Cursor → Option (String × Cursor)
  | 0, _, _ => none
  | fuel + 1, f, c =>
    match c.rest with
    | [] => none
    | ch :: cs =>
      if isBlank ch then doubleQuoted? fuel (f.pushBlank ch) c.next
      else if isBreak ch then
        let (lineEnd, c) := c.nextLine
        doubleQuoted? fuel (f.pushBreak lineEnd) c
      else if c.isDocumentIndicator then none
      else if ch = '"' then some (f.settle.text, c.next)
      else if ch = '\\' then
        if cs.head?.any isBreak then doubleQuoted? fuel f.pushEscapedBreak c.next.nextLine.2
        else
          match escape? cs with
          | some (ch, length) => doubleQuoted? fuel (f.push ch) (c.skip (length + 1))
          | none => none
      else doubleQuoted? fuel (f.push ch) c.next

/-- Reads a text in single quotes after the first of them. A quote in the text is written twice. -/
def singleQuoted? : Nat → Folded → Cursor → Option (String × Cursor)
  | 0, _, _ => none
  | fuel + 1, f, c =>
    match c.rest with
    | [] => none
    | ch :: cs =>
      if isBlank ch then singleQuoted? fuel (f.pushBlank ch) c.next
      else if isBreak ch then
        let (lineEnd, c) := c.nextLine
        singleQuoted? fuel (f.pushBreak lineEnd) c
      else if c.isDocumentIndicator then none
      else if ch = '\'' then
        if cs.head? = some '\'' then singleQuoted? fuel (f.push ch) (c.skip 2)
        else some (f.settle.text, c.next)
      else singleQuoted? fuel (f.push ch) c.next

/-! ### Plain scalars -/

def isFlowIndicator (c : Char) : Bool :=
  c == ',' || c == '[' || c == ']' || c == '{' || c == '}'

/-- What a plain scalar reads: its text, whether it ends at the start of a line, and the place after
it. -/
structure Plain where
  text : String
  broken : Bool
  cursor : Cursor
deriving Repr

/-- Whether a plain scalar that has come to a gap ends there. In a block, a line that is indented
less than `indent` ends it. -/
def endsAtGap (flow : Bool) (indent : Nat) (c : Cursor) : Bool :=
  (!flow && c.column < indent) || c.isDocumentIndicator || c.nextIs (· == '#')

/-- Reads a plain scalar. `gap` tells that blanks or line ends were just read. -/
def plain? (flow : Bool) (indent : Nat) : Nat → Bool → Folded → Cursor → Option Plain
  | 0, _, _, _ => none
  | fuel + 1, gap, f, c =>
    match c.peek? with
    | none => some ⟨f.text, f.broken, c⟩
    | some ch =>
      if isBlank ch then
        if f.broken && c.column < indent && ch == '\t' then none
        else plain? flow indent fuel true (f.pushBlank ch) c.next
      else if isBreak ch then
        let (lineEnd, c) := c.nextLine
        plain? flow indent fuel true (f.pushBreak lineEnd) c
      else if gap && endsAtGap flow indent c then some ⟨f.text, f.broken, c⟩
      else if flow && ch == ':' && c.next.nextIs (fun c => isFlowIndicator c || c == '?') then none
      else if (ch == ':' && c.isGapAt 1) || (flow && isFlowIndicator ch) then
        some ⟨f.text, f.broken, c⟩
      else plain? flow indent fuel false (f.push ch) c.next

/-! ### Block scalars -/

/-- What becomes of the line ends at the end of a block: they are removed, or one is kept, or all
are. -/
inductive Chomping where
  | strip
  | clip
  | keep
deriving DecidableEq, Repr

/-- Reads the sign for the line ends at the end, if there is one. -/
def chomping (c : Cursor) : Option Chomping × Cursor :=
  match c.peek? with
  | some '+' => (some .keep, c.next)
  | some '-' => (some .strip, c.next)
  | _ => (none, c)

/-- Reads the digit for the indentation, if there is one. Zero is none that is allowed. -/
def increment? (c : Cursor) : Option (Option Nat × Cursor) :=
  match c.peek? with
  | some ch =>
    if ch = '0' then none
    else if ch.isDigit then some (some (ch.toNat - '0'.toNat), c.next)
    else some (none, c)
  | none => some (none, c)

/-- Reads the sign and the digit after the mark of a block, in either order. -/
def blockHeader? (c : Cursor) : Option (Chomping × Option Nat × Cursor) := do
  let (first, c) := chomping c
  let (increment, c) ← increment? c
  let (second, c) := if first.isNone && increment.isSome then chomping c else (none, c)
  return ((first.or second).getD .clip, increment, c)

/-- Drops the blanks and the comment at the end of a line, and the line end. -/
def endLine? (c : Cursor) : Option Cursor :=
  let c := c.skipWhile isBlank
  let c := if c.nextIs (· == '#') then c.skipToBreak else c
  if c.atEnd || c.nextIs isBreak then some c.nextLine.2 else none

/-- Reads the line ends and the indentation before a line of a block, at most up to `limit`. The
answer has the greatest indentation and the line ends. -/
def blockBreaks? (limit : Option Nat) :
    Nat → Nat → String → Cursor → Option (Nat × String × Cursor)
  | 0, _, _, _ => none
  | fuel + 1, greatest, breaks, c =>
    let inMargin := limit.all fun limit => c.column < limit
    if inMargin && c.nextIs (· == ' ') then blockBreaks? limit fuel greatest breaks c.next
    else if inMargin && c.nextIs (· == '\t') then none
    else
      let greatest := max greatest c.column
      if c.nextIs isBreak then
        let (lineEnd, c) := c.nextLine
        blockBreaks? limit fuel greatest (breaks ++ lineEnd) c
      else some (greatest, breaks, c)

/-- A block as far as it is read: its text, the line end of its last line, the line ends after that,
and whether that line starts with a blank. -/
structure Block where
  text : String
  leading : String
  trailing : String
  startsBlank : Bool
deriving Repr

/-- The text of a block before a further line. Of a folded block, a line end between two lines that
do not start with a blank becomes a blank. -/
def Block.join (folded blank : Bool) (b : Block) : String :=
  if folded && b.leading == "\n" && !b.startsBlank && !blank then
    b.text ++ (if b.trailing.isEmpty then " " else "") ++ b.trailing
  else b.text ++ b.leading ++ b.trailing

/-- Reads the lines of a block that are indented by `indent`. -/
def blockLines? (folded : Bool) (indent : Nat) : Nat → Block → Cursor → Option (Block × Cursor)
  | 0, _, _ => none
  | fuel + 1, b, c =>
    if c.column = indent && !c.atEnd then do
      let blank := c.nextIs isBlank
      let text := b.join folded blank
      let (line, c) := c.span fun ch => !isBreak ch
      let (lineEnd, c) := c.nextLine
      let (_, breaks, c) ← blockBreaks? (some indent) (c.rest.length + 1) 0 "" c
      blockLines? folded indent fuel ⟨text ++ String.ofList line, lineEnd, breaks, blank⟩ c
    else some (b, c)

/-- Reads a block after its mark. Without a digit for it, the indentation is that of the first line,
and deeper than `parent`, that of the collection around the block. -/
def block? (folded : Bool) (parent : Int) (c : Cursor) : Option (String × Cursor) := do
  let (chomping, increment, c) ← blockHeader? c
  let c ← endLine? c
  let fixed := increment.map fun n => (max parent 0).toNat + n
  let (greatest, breaks, c) ← blockBreaks? fixed (c.rest.length + 1) 0 "" c
  let indent := fixed.getD (max (max greatest (parent + 1).toNat) 1)
  let (b, c) ← blockLines? folded indent (c.rest.length + 1) ⟨"", "", breaks, false⟩ c
  let text := match chomping with
    | .strip => b.text
    | .clip => b.text ++ b.leading
    | .keep => b.text ++ b.leading ++ b.trailing
  return (text, c)

end DocTemplate.Yaml
