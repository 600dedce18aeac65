import DocTemplate.Text.Bytes

/-! Lines and columns of a text. Only a line feed ends a line. -/

namespace DocTemplate

/-- A place in a text by line and column, both counted from one. Columns count characters. -/
structure Location where
  line : Nat
  column : Nat
deriving DecidableEq, Repr

/-- A text and the bytes at which its lines start. -/
structure LineIndex where
  text : List Char
  starts : List Nat
deriving DecidableEq, Repr

namespace LineIndex

/-- The starts of the lines that begin after byte `position`, where the text `cs` stands. -/
def startsAfter (position : Nat) : List Char → List Nat
  | [] => []
  | c :: cs =>
    let next := position + c.utf8Size
    if c = '\n' then next :: startsAfter next cs else startsAfter next cs

def ofText (text : String) : LineIndex := ⟨text.toList, 0 :: startsAfter 0 text.toList⟩

/-- The number of lines; the empty text has one. -/
def lineCount (index : LineIndex) : Nat := index.starts.length

/-- The last boundary of a character at or before byte `position`. -/
def boundary (index : LineIndex) (position : Nat) : Nat :=
  Text.byteLength (Text.takeBytes position index.text)

/-- The place of the character at byte `position`. Past the end it is the end of the text. -/
def location (index : LineIndex) (position : Nat) : Location :=
  let offset := index.boundary position
  let before := index.starts.takeWhile fun start => start ≤ offset
  let start := before.getLastD 0
  ⟨before.length, (Text.takeBytes (offset - start) (Text.dropBytes start index.text)).length + 1⟩

end LineIndex
end DocTemplate
