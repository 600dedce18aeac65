/-! Lengths and positions of text in UTF-8 bytes, for text as a list of characters. -/

namespace DocTemplate.Text

/-- The length of the UTF-8 form of a text. -/
def byteLength : List Char → Nat
  | [] => 0
  | c :: cs => c.utf8Size + byteLength cs

@[simp] theorem byteLength_nil : byteLength [] = 0 := rfl

@[simp] theorem byteLength_cons (c : Char) (cs : List Char) :
    byteLength (c :: cs) = c.utf8Size + byteLength cs := rfl

@[simp] theorem byteLength_append (as bs : List Char) :
    byteLength (as ++ bs) = byteLength as + byteLength bs := by
  induction as with
  | nil => simp
  | cons c cs ih => simp [ih, Nat.add_assoc]

/-- The part of a text before byte `position`, without the character that `position` cuts. -/
def takeBytes : Nat → List Char → List Char
  | _, [] => []
  | position, c :: cs =>
    if c.utf8Size ≤ position then c :: takeBytes (position - c.utf8Size) cs else []

/-- The part of a text from byte `position` on. A character that `position` cuts is left out. -/
def dropBytes : Nat → List Char → List Char
  | 0, cs => cs
  | _ + 1, [] => []
  | position + 1, c :: cs => dropBytes (position + 1 - c.utf8Size) cs

/-- Splits a text at every occurrence of `separator`; the empty text is one empty part. -/
def splitOn (separator : Char) : List Char → List (List Char)
  | [] => [[]]
  | c :: cs =>
    if c = separator then [] :: splitOn separator cs
    else match splitOn separator cs with
      | [] => [[c]]
      | part :: parts => (c :: part) :: parts

theorem splitOn_ne_nil (separator : Char) (cs : List Char) : splitOn separator cs ≠ [] := by
  cases cs with
  | nil => simp [splitOn]
  | cons c cs =>
    simp only [splitOn]
    split
    · simp
    · split <;> simp

end DocTemplate.Text
