import DocTemplate.Yaml.Scalar

/-! Tokens of a YAML text.

The structure of blocks is in the indentation: a deeper line opens a collection, and a shallower one
closes it. That a scalar was the key of a mapping is known only at the colon after it, so that the
token that marks a key is put into the stream at a place that was remembered. -/

namespace DocTemplate.Yaml

inductive Token where
  | version
  | handle (name tagPrefix : String)
  | documentStart
  | documentEnd
  | streamEnd
  | blockSequence
  | blockMapping
  | blockEnd
  | flowSequence
  | flowSequenceEnd
  | flowMapping
  | flowMappingEnd
  | blockEntry
  | flowEntry
  | key
  | value
  | alias (name : String)
  | anchor (name : String)
  | tag (handle suffix : String)
  | scalar (plain : Bool) (text : String)
deriving DecidableEq, Repr

/-- A place where a key may have started: the number of tokens before it, and whether it must be one
because nothing else can stand there. -/
structure KeyPlace where
  required : Bool
  tokenCount : Nat
  index : Nat
  line : Nat
  column : Nat
deriving Repr

/-- The state of the scanner. `keys` has the place of a possible key for each flow collection that
is open, innermost first, and for the block around them. -/
structure Scanner where
  cursor : Cursor
  tokens : Array Token
  indent : Int
  indents : List Int
  keys : List (Option KeyPlace)
  keyAllowed : Bool
deriving Repr

namespace Scanner

def start (text : List Char) : Scanner := ⟨.start text, #[], -1, [], [none], true⟩

/-- Whether the place is inside brackets. -/
def inFlow (s : Scanner) : Bool := 1 < s.keys.length

def emit (s : Scanner) (t : Token) : Scanner := { s with tokens := s.tokens.push t }

/-- Emits a token that is written in `n` characters. -/
def emitOver (s : Scanner) (n : Nat) (t : Token) : Scanner :=
  { s.emit t with cursor := s.cursor.skip n }

/-! ### Places of keys -/

/-- A key must end on its line and after at most this many characters. -/
def maxKeyLength : Nat := 1024

/-- Whether a key that started at a place can no longer end at the cursor. -/
def isStale (s : Scanner) (k : KeyPlace) : Bool :=
  k.line < s.cursor.line || k.index + maxKeyLength < s.cursor.index

/-- Forgets the places of keys that can no longer end. None of them may be required. -/
def dropStale? (s : Scanner) : Option Scanner :=
  let stale (k : Option KeyPlace) := k.any s.isStale
  if s.keys.any fun k => stale k && k.any KeyPlace.required then none
  else some { s with keys := s.keys.map fun k => if stale k then none else k }

/-- Forgets the innermost place of a key, which must not be required. -/
def forgetKey? (s : Scanner) : Option Scanner :=
  match s.keys with
  | some k :: keys => if k.required then none else some { s with keys := none :: keys }
  | _ => some s

/-- Remembers the cursor as the place of a key, where keys are allowed. -/
def rememberKey? (s : Scanner) : Option Scanner :=
  if !s.keyAllowed then some s
  else do
    let s ← s.forgetKey?
    let c := s.cursor
    let required := !s.inFlow && s.indent == c.column
    let key := ⟨required, s.tokens.size, c.index, c.line, c.column⟩
    return { s with keys := some key :: s.keys.tail }

def allowKey (s : Scanner) (allowed : Bool) : Scanner := { s with keyAllowed := allowed }

/-! ### Indentation -/

/-- Opens a block collection at a column that is deeper than the indentation. Its token goes before
the tokens after the first `count`. -/
def indentTo (s : Scanner) (column count : Nat) (t : Token) : Scanner :=
  if !s.inFlow && s.indent < column then
    { s with
      indent := column
      indents := s.indent :: s.indents
      tokens := s.tokens.insertIdxIfInBounds count t }
  else s

/-- Closes the block collections that are deeper than a column. -/
def closeBlocks (column : Int) (indent : Int) (tokens : Array Token) :
    List Int → Int × List Int × Array Token
  | [] => (indent, [], tokens)
  | outer :: indents =>
    if column < indent then closeBlocks column outer (tokens.push .blockEnd) indents
    else (indent, outer :: indents, tokens)

def unindentTo (s : Scanner) (column : Int) : Scanner :=
  if s.inFlow then s
  else
    let (indent, indents, tokens) := closeBlocks column s.indent s.tokens s.indents
    { s with indent := indent, indents := indents, tokens := tokens }

/-! ### Space between tokens -/

/-- Drops blanks, comments and line ends. In a block, tabs do not count as blanks where a key may
start. -/
def skipSpace : Nat → Scanner → Scanner
  | 0, s => s
  | fuel + 1, s =>
    let tabs := s.inFlow || !s.keyAllowed
    let c := s.cursor.skipWhile fun ch => ch == ' ' || (tabs && ch == '\t')
    let c := if c.nextIs (· == '#') then c.skipToBreak else c
    if c.nextIs isBreak then
      skipSpace fuel { s with cursor := c.nextLine.2, keyAllowed := s.keyAllowed || !s.inFlow }
    else { s with cursor := c }

/-! ### Directives, anchors and tags -/

/-- Reads a number of at most nine digits. -/
def versionPart? (c : Cursor) : Option (Nat × Cursor) :=
  let (digits, c) := c.span Char.isDigit
  if digits.isEmpty || 9 < digits.length then none else some (Text.natOfDigits digits, c)

/-- Reads a version, which must be 1.1 or 1.2. -/
def version? (c : Cursor) : Option (Token × Cursor) := do
  let (major, c) ← versionPart? (c.skipWhile isBlank)
  if !c.nextIs (· == '.') then none
  let (minor, c) ← versionPart? c.next
  if major = 1 ∧ (minor = 1 ∨ minor = 2) then some (.version, c) else none

/-- Reads the handle of a tag: a name between two exclamation marks, or one such mark, after which a
tag may go on. -/
def handle? (c : Cursor) : Option (String × Cursor) :=
  if c.nextIs (· == '!') then
    let (name, c) := c.next.span isWordChar
    let text := String.ofList ('!' :: name)
    if c.nextIs (· == '!') then some (text.push '!', c.next) else some (text, c)
  else none

/-- The characters of a tag; some of them only where no flow collection can be meant. -/
def isTagChar (all : Bool) (c : Char) : Bool :=
  isWordChar c || ";/?:@&=+$.!~*\x27()%".toList.contains c ||
    (all && (c == ',' || c == '[' || c == ']'))

/-- The number of bytes of a character that starts with a byte. -/
def sequenceLength? (byte : Nat) : Option Nat :=
  if byte < 0x80 then some 1
  else if 0xc0 ≤ byte ∧ byte < 0xe0 then some 2
  else if 0xe0 ≤ byte ∧ byte < 0xf0 then some 3
  else if 0xf0 ≤ byte ∧ byte < 0xf8 then some 4
  else none

/-- Reads `n` bytes that are each written as a percent sign and two digits. -/
def percentBytes? : Nat → List Char → Option (List UInt8 × List Char)
  | 0, cs => some ([], cs)
  | n + 1, '%' :: a :: b :: cs => do
    let byte ← Text.natOfHex? [a, b]
    let (bytes, cs) ← percentBytes? n cs
    return (UInt8.ofNat byte :: bytes, cs)
  | _, _ => none

/-- Reads a character that is written as bytes. -/
def percentChar? (cs : List Char) : Option (Char × List Char) := do
  match cs with
  | '%' :: a :: b :: _ => do
    let length ← sequenceLength? (← Text.natOfHex? [a, b])
    let (bytes, rest) ← percentBytes? length cs
    match (← String.fromUTF8? ⟨bytes.toArray⟩).toList with
    | [c] => return (c, rest)
    | _ => none
  | _ => none

/-- Resolves the characters of a tag that are written as bytes. -/
def decodeTag? : Nat → List Char → Option (List Char)
  | _, [] => some []
  | 0, _ => none
  | fuel + 1, c :: cs =>
    if c = '%' then do
      let (c, cs) ← percentChar? (c :: cs)
      return c :: (← decodeTag? fuel cs)
    else do return c :: (← decodeTag? fuel cs)

def tagText? (all : Bool) (c : Cursor) : Option (String × Cursor) := do
  let (text, c) := c.span (isTagChar all)
  return (String.ofList (← decodeTag? text.length text), c)

/-- Reads the handle and the prefix of a tag directive. -/
def tagDirective? (c : Cursor) : Option (Token × Cursor) := do
  let (handle, c) ← handle? (c.skipWhile isBlank)
  if handle ≠ "!" ∧ !(2 ≤ handle.length && handle.endsWith "!") then none
  if !c.nextIs isBlank then none
  let (tagPrefix, c) ← tagText? true (c.skipWhile isBlank)
  if tagPrefix.isEmpty || !c.isGapAt 0 then none
  return (.handle handle tagPrefix, c)

/-- Reads a directive after its percent sign, up to the end of its line. -/
def directive? (c : Cursor) : Option (Token × Cursor) := do
  let (name, c) := c.span isWordChar
  if !c.isGapAt 0 then none
  let (t, c) ←
    if String.ofList name = "YAML" then version? c
    else if String.ofList name = "TAG" then tagDirective? c
    else none
  return (t, ← endLine? c)

/-- Whether a character may follow the name of an anchor. -/
def endsAnchor (c : Char) : Bool :=
  isBlank c || isBreak c || c == '?' || c == ':' || c == ',' || c == ']' || c == '}' || c == '%' ||
    c == '@' || c == '\x60'

def anchor? (c : Cursor) : Option (String × Cursor) :=
  let (name, c) := c.span isWordChar
  if name.isEmpty || !(c.peek?.all endsAnchor) then none else some (String.ofList name, c)

/-- Reads a tag between angle brackets. -/
def verbatimTag? (c : Cursor) : Option (Token × Cursor) := do
  let (suffix, c) ← tagText? true c
  if suffix.isEmpty || !c.nextIs (· == '>') then none
  return (.tag "" suffix, c.next)

/-- Reads a tag with a handle, or with the handle of one mark and a suffix that may be empty. -/
def handleTag? (c : Cursor) : Option (Token × Cursor) := do
  let (handle, c) ← handle? c
  let (suffix, c) ← tagText? false c
  if 2 ≤ handle.length && handle.endsWith "!" then
    if suffix.isEmpty then none else some (.tag handle suffix, c)
  else
    let suffix := String.ofList (handle.toList.drop 1) ++ suffix
    if suffix.isEmpty then some (.tag "" "!", c) else some (.tag "!" suffix, c)

/-- Reads a tag, after which a gap must come, or in a flow collection a comma. -/
def tag? (flow : Bool) (c : Cursor) : Option (Token × Cursor) := do
  let (t, c) ← if c.rest[1]? = some '<' then verbatimTag? (c.skip 2) else handleTag? c
  if c.isGapAt 0 || (flow && c.nextIs (· == ',')) then some (t, c) else none

/-! ### Tokens -/

/-- Ends all block collections before a directive, a document indicator, or the end of the text. -/
def endBlocks? (s : Scanner) : Option Scanner := do
  return (← (s.unindentTo (-1)).forgetKey?).allowKey false

def openFlow? (s : Scanner) (t : Token) : Option Scanner := do
  let s ← s.rememberKey?
  return ({ s with keys := none :: s.keys }.allowKey true).emitOver 1 t

def closeFlow? (s : Scanner) (t : Token) : Option Scanner := do
  let s ← s.forgetKey?
  let s := if s.inFlow then { s with keys := s.keys.tail } else s
  return (s.allowKey false).emitOver 1 t

/-- Opens the block collection of an entry or a key here, which must be allowed. -/
def openBlock? (s : Scanner) (t : Token) : Option Scanner :=
  if s.inFlow then some s
  else if s.keyAllowed then some (s.indentTo s.cursor.column s.tokens.size t)
  else none

def blockEntry? (s : Scanner) : Option Scanner := do
  let s ← (← s.openBlock? .blockSequence).forgetKey?
  return (s.allowKey true).emitOver 1 .blockEntry

def key? (s : Scanner) : Option Scanner := do
  let s ← (← s.openBlock? .blockMapping).forgetKey?
  return (s.allowKey (!s.inFlow)).emitOver 1 .key

/-- A colon. If a key may have started before it, that becomes a key, and its mapping is opened
there if it is the first. -/
def value? (s : Scanner) : Option Scanner := do
  match s.keys with
  | some k :: keys =>
    let s := { s with
      keys := none :: keys
      tokens := s.tokens.insertIdxIfInBounds k.tokenCount .key }
    return ((s.indentTo k.column k.tokenCount .blockMapping).allowKey false).emitOver 1 .value
  | _ =>
    let s ← s.openBlock? .blockMapping
    return (s.allowKey (!s.inFlow)).emitOver 1 .value

/-- A token that may be the start of a key. -/
def item? (s : Scanner) (read : Cursor → Option (Token × Cursor)) : Option Scanner := do
  let s ← s.rememberKey?
  let (t, c) ← read s.cursor
  return { (s.allowKey false).emit t with cursor := c }

def flowEntry? (s : Scanner) : Option Scanner := do
  return ((← s.forgetKey?).allowKey true).emitOver 1 .flowEntry

/-- A scalar in a block. -/
def blockScalar? (s : Scanner) (folded : Bool) : Option Scanner := do
  let s ← s.forgetKey?
  let (text, c) ← block? folded s.indent s.cursor.next
  return { (s.allowKey true).emit (.scalar false text) with cursor := c }

/-- A plain scalar. If it ends at the start of a line, a key may follow. -/
def plainScalar? (s : Scanner) : Option Scanner := do
  let s ← s.rememberKey?
  let c := s.cursor
  let p ← Yaml.plain? s.inFlow (s.indent + 1).toNat (c.rest.length + 1) false .empty c
  return { (s.allowKey p.broken).emit (.scalar true p.text) with cursor := p.cursor }

/-- The characters that no plain scalar starts with. -/
def isIndicator (c : Char) : Bool := "-?:,[]\x7b\x7d#&*!|>\x27\x22%@\x60".toList.contains c

def startsPlain (s : Scanner) (ch : Char) : Bool :=
  !(isIndicator ch || isBlank ch || isBreak ch) ||
    (ch == '-' && !s.cursor.next.nextIs isBlank) ||
    (!s.inFlow && (ch == '?' || ch == ':') && !s.cursor.isGapAt 1)

/-- Reads the token that starts with a character. -/
def token? (s : Scanner) (ch : Char) : Option Scanner :=
  let c := s.cursor
  let marks := s.inFlow || c.isGapAt 1
  if c.column == 0 && ch == '%' then do
    let s ← s.endBlocks?
    let (t, c) ← directive? c.next
    return { s.emit t with cursor := c }
  else if c.isIndicator '-' then do return (← s.endBlocks?).emitOver 3 .documentStart
  else if c.isIndicator '.' then do return (← s.endBlocks?).emitOver 3 .documentEnd
  else if ch = '[' then s.openFlow? .flowSequence
  else if ch = '{' then s.openFlow? .flowMapping
  else if ch = ']' then s.closeFlow? .flowSequenceEnd
  else if ch = '}' then s.closeFlow? .flowMappingEnd
  else if ch = ',' then s.flowEntry?
  else if ch = '-' && c.isGapAt 1 then s.blockEntry?
  else if ch = '?' && marks then s.key?
  else if ch = ':' && marks then s.value?
  else if ch = '*' then s.item? fun c => (anchor? c.next).map fun (name, c) => (.alias name, c)
  else if ch = '&' then s.item? fun c => (anchor? c.next).map fun (name, c) => (.anchor name, c)
  else if ch = '!' then s.item? (tag? s.inFlow)
  else if ch = '|' && !s.inFlow then s.blockScalar? false
  else if ch = '>' && !s.inFlow then s.blockScalar? true
  else if ch = '\'' then s.item? fun c =>
    (singleQuoted? (c.rest.length + 1) .empty c.next).map fun (text, c) => (.scalar false text, c)
  else if ch = '"' then s.item? fun c =>
    (doubleQuoted? (c.rest.length + 1) .empty c.next).map fun (text, c) => (.scalar false text, c)
  else if s.startsPlain ch then s.plainScalar?
  else none

/-- Reads at most `fuel` tokens and the end of the text. -/
def run? : Nat → Scanner → Option (Array Token)
  | 0, _ => none
  | fuel + 1, s => do
    let s := skipSpace (s.cursor.rest.length + 1) s
    let s ← s.dropStale?
    let s := s.unindentTo s.cursor.column
    match s.cursor.peek? with
    | none => return ((← s.endBlocks?).emit .streamEnd).tokens
    | some ch => run? fuel (← s.token? ch)

end Scanner

/-- Cuts a text into tokens. A byte order mark at its start is no part of it. -/
def Token.scan? (text : String) : Option (List Token) :=
  let cs := match text.toList with
    | '\uFEFF' :: cs => cs
    | cs => cs
  if cs.all isAllowed then (Scanner.run? (cs.length + 1) (.start cs)).map Array.toList else none

end DocTemplate.Yaml
