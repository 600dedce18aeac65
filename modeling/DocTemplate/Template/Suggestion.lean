import DocTemplate.Data.Keys

/-! Known paths that may have been meant by a path without a value: those at a small edit distance,
the least number of characters to insert, delete or replace. -/

namespace DocTemplate.Text

/-- The rest of a row of distances. `left` is the distance just computed and `diagonal` the one
above it; the row above goes on with the distances of the third argument. -/
def distances (c : Char) (left diagonal : Nat) : List Char → List Nat → List Nat
  | t :: ts, above :: rest =>
    let distance := min (min (left + 1) (above + 1)) (if c = t then diagonal else diagonal + 1)
    distance :: distances c distance above ts rest
  | _, _ => []

/-- The distances to all beginnings of `target` of a text that is one character longer than the text
of the given row. -/
def nextDistances (target : List Char) (row : List Nat) (c : Char) : List Nat :=
  match row with
  | [] => []
  | first :: rest => (first + 1) :: distances c (first + 1) first target rest

/-- The edit distance, row by row. -/
def editDistance (source target : List Char) : Nat :=
  (source.foldl (nextDistances target) (List.range (target.length + 1))).getLastD 0

end DocTemplate.Text

namespace DocTemplate

/-- A known path and its distance from the path that was written. -/
structure Suggestion where
  path : String
  distance : Nat
deriving DecidableEq, Repr

namespace Suggestion

/-- The greatest distance of a suggestion, in hundredths of the length of what was written. -/
def thresholdPercent : Nat := 50

/-- The most suggestions made at once. -/
def maxCount : Nat := 3

/-- The nearer path comes first, and of two at the same distance the first in order. -/
def precedes (a b : Suggestion) : Bool :=
  a.distance < b.distance || (a.distance == b.distance && a.path ≤ b.path)

/-- The greatest distance of a suggestion for `target`, whose length counts in bytes. -/
def limit (target : String) : Nat := target.utf8ByteSize * thresholdPercent / 100

/-- The known paths with their distances, nearest first, `target` itself excluded. -/
def ranked (target : String) (context : Value) : List Suggestion :=
  ((context.knownPaths.filter (· ≠ target)).map fun path =>
    ⟨path, Text.editDistance target.toList path.toList⟩).mergeSort precedes

/-- The known paths nearest to `target` and within the limit, nearest first. -/
def nearest (target : String) (context : Value) : List String :=
  (((ranked target context).filter fun s => s.distance ≤ limit target).take maxCount).map path

end Suggestion
end DocTemplate
