import DocTemplate.Toml.Quoted

/-! Writing texts in TOML.

Of the ways to quote a text the first is taken that needs no escapes: double quotes, single quotes,
and three of either for several lines. A text that needs escapes stands in double quotes. -/

namespace DocTemplate.Toml

/-- The longest run of a character in a text. -/
def longestRun (c : Char) (run longest : Nat) : List Char → Nat
  | [] => longest
  | d :: cs =>
    if d = c then longestRun c (run + 1) (max longest (run + 1)) cs else longestRun c 0 longest cs

/-- Whether a character can only be written as an escape. -/
def needsEscape (c : Char) : Bool := !isPlain c && c != '\n'

/-- Four hexadecimal digits. -/
def hexDigits (n : Nat) : List Char :=
  [12, 8, 4, 0].map fun shift => (Nat.digitChar ((n >>> shift) % 16)).toUpper

/-- A character in double quotes. -/
def escapeChar (c : Char) : List Char :=
  if c = '"' then ['\\', '"']
  else if c = '\\' then ['\\', '\\']
  else if c = '\x08' then ['\\', 'b']
  else if c = '\t' then ['\\', 't']
  else if c = '\n' then ['\\', 'n']
  else if c = '\x0c' then ['\\', 'f']
  else if c = '\r' then ['\\', 'r']
  else if isPlain c then [c]
  else '\\' :: 'u' :: hexDigits c.toNat

/-- A text between quotes, after a line end if it has several lines. -/
def enclose (quotes : String) (lines : Bool) (body : List Char) : String :=
  quotes ++ (if lines then "\n" else "") ++ String.ofList body ++ quotes

def quoteText (text : String) : String :=
  let cs := text.toList
  let codes := cs.any needsEscape
  let backslash := cs.contains '\\'
  let lines := cs.contains '\n'
  let double := longestRun '"' 0 0 cs
  let single := longestRun '\'' 0 0 cs
  let escaped := cs.flatMap fun c => if c = '\t' then ['\\', 't'] else [c]
  if !codes && !backslash && double == 0 && !lines then enclose "\"" false escaped
  else if !codes && single == 0 && !lines then enclose "'" false cs
  else if !codes && !backslash && double ≤ 2 then enclose "\"\"\"" lines escaped
  else if !codes && single ≤ 2 then enclose "\x27\x27\x27" lines cs
  else if lines then
    enclose "\"\"\"" true (cs.flatMap fun c => if c = '\n' then [c] else escapeChar c)
  else enclose "\"" false (cs.flatMap escapeChar)

end DocTemplate.Toml
