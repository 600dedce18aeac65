import DocTemplate.Toml.Quoted
import DocTemplate.Toml.Scalar
import DocTemplate.Toml.Table

/-! Reading TOML text. -/

namespace DocTemplate.Toml

/-- Drops blanks, line ends and comments. -/
def layout? (comment : Bool) : List Char → Option (List Char)
  | [] => some []
  | c :: cs =>
    if c = '\n' then layout? false cs
    else if c = '\r' then if startsLine (c :: cs) then layout? comment cs else none
    else if comment then if isPlain c then layout? true cs else none
    else if isBlank c then layout? false cs
    else if c = '#' then layout? true cs
    else some (c :: cs)

/-- Drops the blanks at the end of a line, where nothing but a comment may follow. -/
def lineEnd? (cs : List Char) : Option (List Char) :=
  match cs.dropWhile isBlank with
  | [] => some []
  | '#' :: cs => some ('#' :: cs)
  | cs => if startsLine cs then some cs else none

/-! ### Keys -/

def isBareKeyChar (c : Char) : Bool := c.isAlphanum || c == '_' || c == '-'

/-- One part of a key, bare or quoted. -/
def keyPart? (cs : List Char) : Option (String × List Char) :=
  match quoted? cs with
  | some (key, rest) => some (String.ofList key, rest)
  | none =>
    match cs.takeWhile isBareKeyChar with
    | [] => none
    | key => some (String.ofList key, cs.dropWhile isBareKeyChar)

/-- A key of at most `fuel` parts with dots between them, and the text after the blanks behind it.
-/
def key? : Nat → List Char → Option (List String × List Char)
  | 0, _ => none
  | fuel + 1, cs => do
    let (part, cs) ← keyPart? (cs.dropWhile isBlank)
    match cs.dropWhile isBlank with
    | '.' :: cs => do
      let (parts, cs) ← key? fuel cs
      return (part :: parts, cs)
    | cs => return ([part], cs)

/-! ### Values -/

/-- The deepest nesting of arrays and inline tables. -/
def greatestDepth : Nat := 80

mutual

/-- Reads a value in which containers may nest `depth` deep. The fuel bounds the nesting of the
calls. -/
def value? : Nat → Nat → List Char → Option (Toml × List Char)
  | 0, _, _ => none
  | _ + 1, 0, '[' :: _ => none
  | _ + 1, 0, '{' :: _ => none
  | fuel + 1, depth + 1, '[' :: cs => items? fuel depth [] cs
  | fuel + 1, depth + 1, '{' :: cs => fields? fuel depth .empty cs
  | _ + 1, _, cs =>
    if cs.head?.any fun c => c == '"' || c == '\'' then
      (quotedLines? cs).map fun (s, rest) => (.string (String.ofList s), rest)
    else
      let (w, rest) := word cs
      (scalar? w).map (·, rest)

/-- Reads items up to the end of an array, after those in `read`, last first. -/
def items? : Nat → Nat → List Toml → List Char → Option (Toml × List Char)
  | 0, _, _, _ => none
  | fuel + 1, depth, read, cs => do
    match ← layout? false cs with
    | ']' :: cs => return (.array read.reverse, cs)
    | cs => do
      let (item, cs) ← value? fuel depth cs
      match ← layout? false cs with
      | ',' :: cs => items? fuel depth (item :: read) cs
      | ']' :: cs => return (.array (item :: read).reverse, cs)
      | _ => none

/-- Reads fields up to the end of an inline table. -/
def fields? : Nat → Nat → Draft → List Char → Option (Toml × List Char)
  | 0, _, _, _ => none
  | fuel + 1, depth, read, cs => do
    match ← layout? false cs with
    | '}' :: cs => return (read.finish, cs)
    | cs => do
      let (key, cs) ← key? cs.length cs
      match cs with
      | '=' :: cs => do
        let (value, cs) ← value? fuel depth (cs.dropWhile isBlank)
        let read ← read.assign? key value
        match ← layout? false cs with
        | ',' :: cs => fields? fuel depth read cs
        | '}' :: cs => return (read.finish, cs)
        | _ => none
      | _ => none

end

/-! ### Documents -/

/-- The tables read so far and the header in force. -/
structure Document where
  root : Draft
  header : List String

/-- Reads a header, a list header, or a key with its value. -/
def statement? (d : Document) : List Char → Option (Document × List Char)
  | '[' :: '[' :: cs => do
    match ← key? cs.length cs with
    | (header, ']' :: ']' :: cs) => return (⟨← d.root.openItem? header, header⟩, cs)
    | _ => none
  | '[' :: cs => do
    match ← key? cs.length cs with
    | (header, ']' :: cs) => return (⟨← d.root.openTable? header, header⟩, cs)
    | _ => none
  | cs => do
    match ← key? cs.length cs with
    | (key, '=' :: cs) => do
      let (value, cs) ← value? (cs.length + 1) greatestDepth (cs.dropWhile isBlank)
      return (⟨← d.root.assignAt? d.header key value, d.header⟩, cs)
    | _ => none

/-- Reads at most `fuel` statements. -/
def statements? : Nat → Document → List Char → Option Document
  | 0, _, _ => none
  | fuel + 1, d, cs => do
    match ← layout? false cs with
    | [] => return d
    | cs => do
      let (d, cs) ← statement? d cs
      statements? fuel d (← lineEnd? cs)

/-- Reads a document, which may start with a byte order mark. -/
def parse? (text : String) : Option Toml := do
  let cs := match text.toList with
    | '\uFEFF' :: cs => cs
    | cs => cs
  let d ← statements? (cs.length + 1) ⟨.empty, []⟩ cs
  return d.root.finish

def readValue? (text : String) : Option Value := do (← parse? text).toValue?

end DocTemplate.Toml
