import DocTemplate.Data.Value
import DocTemplate.Text.Digits
import DocTemplate.Toml.DateTime

/-! TOML documents as values. -/

namespace DocTemplate

/-- A value of a TOML document. A float without a number is infinite or not a number. The fields of
a table stand in any order, each key once. -/
inductive Toml where
  | string (s : String)
  | integer (n : Int)
  | float (x : Option Binary64)
  | bool (b : Bool)
  | dateTime (d : Toml.DateTime)
  | array (items : List Toml)
  | table (fields : List (String × Toml))
deriving Repr, Inhabited

namespace Toml

/-- The integers of a document fit 64 bits, with a sign or without. -/
def isInteger (n : Int) : Bool := -Limits.signed64 ≤ n && n < Limits.unsigned64

mutual

/-- The value as data. Only integers of 64 bits with a sign are data; dates and times become texts,
and floats without a number become null. -/
def toValue? : Toml → Option Value
  | .string s => some (.string s)
  | .integer n => if n < Limits.signed64 then some (.number (.int n)) else none
  | .float (some x) => some (.number (.double x))
  | .float none => some .null
  | .bool b => some (.bool b)
  | .dateTime d => some (.string d.text)
  | .array items => (itemsToValues? items).map .sequence
  | .table fields => (fieldsToValues? fields).map fun fields => .mapping (.ofList fields)

def itemsToValues? : List Toml → Option (List Value)
  | [] => some []
  | item :: items => do
    let v ← item.toValue?
    return v :: (← itemsToValues? items)

def fieldsToValues? : List (String × Toml) → Option (List (String × Value))
  | [] => some []
  | (key, item) :: fields => do
    let v ← item.toValue?
    return (key, v) :: (← fieldsToValues? fields)

end

end Toml
end DocTemplate
