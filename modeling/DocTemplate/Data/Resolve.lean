import DocTemplate.Data.Value
import DocTemplate.Text.Digits

/-! The value at a path inside another value.

A mapping is entered by key and a sequence by index. An index is written in decimal digits alone,
with any leading zeros, and has no more than 64 bits. -/

namespace DocTemplate

/-- The index that a segment denotes, if it is one. -/
def index? (segment : String) : Option Nat :=
  let digits := segment.toList
  if !digits.isEmpty && digits.all Char.isDigit then
    (Text.wordOfDigits? digits).map UInt64.toNat
  else none

namespace Value

/-- The member of a container that a segment denotes. -/
def member? (segment : String) : Value → Option Value
  | .mapping fields => fields.get? segment
  | .sequence items => (index? segment).bind fun i => items[i]?
  | .null | .bool _ | .number _ | .string _ => none

/-- The value at the end of a chain of segments; the empty chain ends at the value itself. -/
def resolve? (v : Value) : List String → Option Value
  | [] => some v
  | segment :: segments => (v.member? segment).bind fun member => member.resolve? segments

@[simp] theorem resolve?_nil (v : Value) : v.resolve? [] = some v := rfl

@[simp] theorem resolve?_cons (v : Value) (segment : String) (segments : List String) :
    v.resolve? (segment :: segments) =
      (v.member? segment).bind fun member => member.resolve? segments := rfl

end Value
end DocTemplate
