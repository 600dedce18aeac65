/-! Sets of texts, kept as lists in strictly increasing order of code points. -/

namespace DocTemplate

/-- The texts of a set, in order and each once. -/
abbrev Names := List String

namespace Names

/-- Adds a text at its place in the order, unless it is there. -/
def insert (name : String) : Names → Names
  | [] => [name]
  | n :: names =>
    if name = n then n :: names
    else if name < n then name :: n :: names
    else n :: insert name names

/-- The texts of a list, in order and each once. -/
def ofList (names : List String) : Names := names.foldl (fun set name => insert name set) []

theorem mem_insert {name other : String} {names : Names} :
    other ∈ insert name names ↔ other = name ∨ other ∈ names := by
  induction names with
  | nil => simp [insert]
  | cons n names ih =>
    simp only [insert]
    split
    · simp_all
    · split
      · simp
      · simp only [List.mem_cons, ih]
        constructor
        · rintro (h | h | h) <;> simp [h]
        · rintro (h | h | h) <;> simp [h]

end Names
end DocTemplate
