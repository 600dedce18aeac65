/-! A place in a YAML text. -/

namespace DocTemplate.Yaml

def isBlank (c : Char) : Bool := c == ' ' || c == '\t'

def isBreak (c : Char) : Bool :=
  c == '\n' || c == '\r' || c == '\x85' || c == '\u2028' || c == '\u2029'

def isWordChar (c : Char) : Bool := c.isAlphanum || c == '_' || c == '-'

/-- The characters that a text may contain. -/
def isAllowed (c : Char) : Bool :=
  c == '\t' || c == '\n' || c == '\r' || (' ' ≤ c && c ≤ '~') || c == '\x85' ||
    ('\xa0' ≤ c && c.toNat ≤ 0xfffd) || 0x10000 ≤ c.toNat

/-- The text that is left, and how many characters, lines, and characters of the line came before.
-/
structure Cursor where
  rest : List Char
  index : Nat
  line : Nat
  column : Nat
deriving Repr

namespace Cursor

def start (text : List Char) : Cursor := ⟨text, 0, 0, 0⟩

def peek? (c : Cursor) : Option Char := c.rest.head?

def atEnd (c : Cursor) : Bool := c.rest.isEmpty

/-- Whether a blank, a line end or the end of the text stands `n` characters on. -/
def isGapAt (c : Cursor) (n : Nat) : Bool :=
  match c.rest[n]? with
  | some ch => isBlank ch || isBreak ch
  | none => true

/-- Whether the next character has a property. -/
def nextIs (c : Cursor) (p : Char → Bool) : Bool := c.peek?.any p

/-- Goes on by one character of the line. -/
def next (c : Cursor) : Cursor := ⟨c.rest.tail, c.index + 1, c.line, c.column + 1⟩

/-- Goes on by several characters of the line. -/
def skip (c : Cursor) (n : Nat) : Cursor := ⟨c.rest.drop n, c.index + n, c.line, c.column + n⟩

/-- Goes on over a line end and gives the text that stands for it; without a line end nothing
changes. -/
def nextLine (c : Cursor) : String × Cursor :=
  match c.rest with
  | '\r' :: '\n' :: rest => ("\n", ⟨rest, c.index + 2, c.line + 1, 0⟩)
  | ch :: rest =>
    if isBreak ch then
      let text := if ch = '\u2028' ∨ ch = '\u2029' then String.singleton ch else "\n"
      (text, ⟨rest, c.index + 1, c.line + 1, 0⟩)
    else ("", c)
  | [] => ("", c)

/-- Goes on over all characters with a property, none of which ends a line. -/
def skipWhile (c : Cursor) (p : Char → Bool) : Cursor := c.skip (c.rest.takeWhile p).length

/-- The characters with a property that come next, and the place after them. -/
def span (c : Cursor) (p : Char → Bool) : List Char × Cursor :=
  (c.rest.takeWhile p, c.skipWhile p)

/-- Goes on to the end of the line. -/
def skipToBreak (c : Cursor) : Cursor := c.skipWhile fun ch => !isBreak ch

/-- Whether a line starts here with three times `mark` alone. -/
def isIndicator (c : Cursor) (mark : Char) : Bool :=
  c.column == 0 && c.rest.take 3 == [mark, mark, mark] && c.isGapAt 3

/-- Whether a line starts here that begins or ends a document. -/
def isDocumentIndicator (c : Cursor) : Bool := c.isIndicator '-' || c.isIndicator '.'

end Cursor
end DocTemplate.Yaml
