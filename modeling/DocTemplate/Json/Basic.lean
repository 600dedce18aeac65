import DocTemplate.Data.Value

/-! JSON documents as written: fields in their order, repeated keys, and numbers digit by digit. The
writer prints them in one line or indented. -/

namespace DocTemplate

/-- A JSON document. A number is kept as written. `unpaired` is a string in which an escape names
half of a surrogate pair, so that it denotes no text. -/
inductive Json where
  | null
  | bool (b : Bool)
  | number (text : String)
  | string (s : String)
  | unpaired
  | array (items : List Json)
  | object (fields : List (String × Json))
deriving Repr, Inhabited

namespace Json

def nat (n : Nat) : Json := .number (toString n)

/-- A control character as an escape of four digits. -/
def controlEscape (c : Char) : List Char :=
  ['\\', 'u', '0', '0', Nat.digitChar (c.toNat / 16), Nat.digitChar (c.toNat % 16)]

/-- A character inside quotes: quotes, backslashes and control characters are escaped. -/
def escape (c : Char) : List Char :=
  if c = '"' then ['\\', '"']
  else if c = '\\' then ['\\', '\\']
  else if c = '\n' then ['\\', 'n']
  else if c = '\r' then ['\\', 'r']
  else if c = '\t' then ['\\', 't']
  else if c = '\x08' then ['\\', 'b']
  else if c = '\x0c' then ['\\', 'f']
  else if c < ' ' then controlEscape c
  else [c]

def quote (s : String) : String :=
  String.ofList ('"' :: s.toList.flatMap escape ++ ['"'])

mutual

def compact : Json → String
  | .null => "null"
  | .bool b => if b then "true" else "false"
  | .number text => text
  | .string s => quote s
  | .unpaired => "\"\""
  | .array items => "[" ++ ",".intercalate (compactItems items) ++ "]"
  | .object fields => "\x7b" ++ ",".intercalate (compactFields fields) ++ "\x7d"

def compactItems : List Json → List String
  | [] => []
  | item :: items => item.compact :: compactItems items

def compactFields : List (String × Json) → List String
  | [] => []
  | (key, value) :: fields => (quote key ++ ":" ++ value.compact) :: compactFields fields

end

/-- The start of a line at a depth of nesting. -/
def indent (depth : Nat) : String := String.ofList ('\n' :: List.replicate (2 * depth) ' ')

/-- The members of a container on lines of their own, between its brackets. -/
def lines (depth : Nat) (start stop : String) (members : List String) : String :=
  if members.isEmpty then start ++ stop
  else
    start ++ indent (depth + 1) ++ ("," ++ indent (depth + 1)).intercalate members ++
      indent depth ++ stop

mutual

/-- The document at a depth of nesting, each member of a container on a line of its own. -/
def prettyAt (depth : Nat) : Json → String
  | .array items => lines depth "[" "]" (prettyItems (depth + 1) items)
  | .object fields => lines depth "\x7b" "\x7d" (prettyFields (depth + 1) fields)
  | .null => "null"
  | .bool b => if b then "true" else "false"
  | .number text => text
  | .string s => quote s
  | .unpaired => "\"\""

def prettyItems (depth : Nat) : List Json → List String
  | [] => []
  | item :: items => prettyAt depth item :: prettyItems depth items

def prettyFields (depth : Nat) : List (String × Json) → List String
  | [] => []
  | (key, value) :: fields =>
    (quote key ++ ": " ++ prettyAt depth value) :: prettyFields depth fields

end

/-- The document indented by two blanks for each level. -/
def pretty (j : Json) : String := prettyAt 0 j

end Json

namespace Value

mutual

def toJson : Value → Json
  | .null => .null
  | .bool b => .bool b
  | .number n => .number n.text
  | .string s => .string s
  | .sequence items => .array (itemsToJson items)
  | .mapping fields => .object (fieldsToJson fields)

def itemsToJson : List Value → List Json
  | [] => []
  | v :: vs => v.toJson :: itemsToJson vs

def fieldsToJson {before : Option String} : FieldsAfter Value before → List (String × Json)
  | .nil => []
  | .cons key _ v fields => (key, v.toJson) :: fieldsToJson fields

end

/-- The value as JSON in one line. -/
def json (v : Value) : String := v.toJson.compact

/-- The text that stands for a value in a document: null is nothing, a string is itself, and all
else is JSON. -/
def text : Value → String
  | .null => ""
  | .string s => s
  | v => v.json

end Value
end DocTemplate
