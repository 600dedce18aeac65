import DocTemplate.Number.Shortest

/-! The data of a document: scalars, sequences, and mappings whose keys are in order. -/

namespace DocTemplate

/-- An integer, or a number with a fractional or exponent part. -/
inductive Number where
  | int (value : Int)
  | double (value : Binary64)
deriving DecidableEq, Repr

namespace Number

def isZero : Number → Bool
  | int value => value == 0
  | double value => value.isZero

def text : Number → String
  | int value => toString value
  | double value => value.text

end Number

/-- A key that may stand after another one: it is greater. Every key may stand first. -/
def Follows (before : Option String) (key : String) : Prop := ∀ k ∈ before, k < key

/-- Keys with values, after a key or from the beginning. The keys increase, so each stands once.
That is part of the type, as a constructor of values can state nothing about the values in it. -/
inductive FieldsAfter (α : Type) : Option String → Type where
  | nil {before : Option String} : FieldsAfter α before
  | cons {before : Option String} (key : String) (follows : Follows before key) (value : α)
    (rest : FieldsAfter α (some key)) : FieldsAfter α before
deriving Repr

/-- A value of the data. The fields of a mapping stand in the order of their keys, each key once. -/
inductive Value where
  | null
  | bool (b : Bool)
  | number (n : Number)
  | string (s : String)
  | sequence (items : List Value)
  | mapping (fields : FieldsAfter Value none)
deriving Repr, Inhabited

/-- The keys and values of a mapping. -/
abbrev Fields := FieldsAfter Value none

@[simp] theorem follows_none (key : String) : Follows none key := nofun

@[simp] theorem follows_some {k key : String} : Follows (some k) key ↔ k < key := by
  simp [Follows]

namespace FieldsAfter

variable {α : Type} {before : Option String}

def get? (key : String) {before : Option String} : FieldsAfter α before → Option α
  | nil => none
  | cons k _ v rest => if k = key then some v else rest.get? key

def isEmpty : FieldsAfter α before → Bool
  | nil => true
  | cons .. => false

theorem isEmpty_iff {fields : FieldsAfter α before} : fields.isEmpty = true ↔ fields = nil := by
  cases fields <;> simp [isEmpty]

/-- Sets the value under a key, at the key's place in the order. -/
def insert (key : String) (value : α) {before : Option String} (h : Follows before key) :
    FieldsAfter α before → FieldsAfter α before
  | nil => cons key h value nil
  | cons k hk v rest =>
    if hSame : key = k then cons k hk value rest
    else if hBefore : key < k then cons key h value (cons k (follows_some.mpr hBefore) v rest)
    else
      have hAfter : k < key := Std.lt_of_le_of_ne (Std.not_lt.mp hBefore) (Ne.symm hSame)
      cons k hk v (rest.insert key value (follows_some.mpr hAfter))

def put (key : String) (value : α) (fields : FieldsAfter α none) : FieldsAfter α none :=
  fields.insert key value (follows_none key)

/-- The fields of a list in any order; of equal keys the last one holds. -/
def ofList (fields : List (String × α)) : FieldsAfter α none :=
  fields.foldl (fun acc (k, v) => acc.put k v) nil

end FieldsAfter

namespace Value

def empty : Value := .mapping .nil

/-- Whether a section bound to the value is shown: null, false, zero and what is empty are not. -/
def isTruthy : Value → Bool
  | .null => false
  | .bool b => b
  | .number n => !n.isZero
  | .string s => !s.isEmpty
  | .sequence items => !items.isEmpty
  | .mapping fields => !fields.isEmpty

end Value
end DocTemplate
