import DocTemplate.Json.Reader
import DocTemplate.Template.Diagnostic

/-! Diagnostics as JSON documents. -/

namespace DocTemplate.Diagnostic

def toJson (d : Diagnostic) : Json :=
  .object [("kind", .string d.kind.tag), ("path", .string d.path), ("position", .nat d.position)]

/-- A kind as written: its tag, or an object with the tag as its only key and no content. -/
def kindOfJson? : Json → Option Kind
  | .string tag => Kind.ofTag? tag
  | .object [(tag, .null)] => Kind.ofTag? tag
  | _ => none

def textOfJson? : Json → Option String
  | .string s => some s
  | _ => none

/-- A position as written: digits alone that denote a number of 64 bits. -/
def positionOfJson? : Json → Option Nat
  | .number text =>
    let n := Text.natOfDigits text.toList
    if text.toList.all Char.isDigit ∧ n < Limits.unsigned64 then some n else none
  | _ => none

/-- The value of a key that an object has once. -/
def onlyField? (fields : List (String × Json)) (key : String) : Option Json :=
  match fields.filter fun field => field.1 = key with
  | [(_, value)] => some value
  | _ => none

/-- A diagnostic from an object with its fields, among which others are ignored, or from an array of
the three values. -/
def ofJson? : Json → Option Diagnostic
  | .object fields => do
    return ⟨← kindOfJson? (← onlyField? fields "kind"), ← textOfJson? (← onlyField? fields "path"),
      ← positionOfJson? (← onlyField? fields "position")⟩
  | .array [kind, path, position] => do
    return ⟨← kindOfJson? kind, ← textOfJson? path, ← positionOfJson? position⟩
  | _ => none

end DocTemplate.Diagnostic
