import DocTemplate.Toml.Basic

/-! Tables of a TOML document while it is read.

A table may be written in several places, but each of its keys only once, and which places are
allowed depends on how the table came to be. -/

namespace DocTemplate.Toml

/-- What made a table: a header of its own, a header of a table inside it, or a dotted key. -/
inductive Origin where
  | header
  | parent
  | dotted
deriving DecidableEq, Repr

/-- A value, a table that may grow, or a list of such tables, the last one first. -/
inductive Draft where
  | leaf (value : Toml)
  | table (origin : Origin) (entries : List (String × Draft))
  | tables (items : List Draft)
deriving Repr, Inhabited

namespace Draft

abbrev Entries := List (String × Draft)

/-- Sets the entry of a key in a list that may have one. -/
def replace (key : String) (d : Draft) : Entries → Entries
  | [] => [(key, d)]
  | (k, e) :: entries => if k = key then (key, d) :: entries else (k, e) :: replace key d entries

/-- Changes the table at the end of a path of keys, making the tables that are missing on the way. A
dotted key goes through no table that has a header. -/
def alter? (dotted : Bool) (change : Origin → Entries → Option Draft) :
    List String → Draft → Option Draft
  | [], .table origin entries => change origin entries
  | key :: keys, .table origin entries => do
    let inner ← match entries.lookup key with
      | none =>
        alter? dotted change keys (.table (if dotted then .dotted else .parent) [])
      | some (.table inner innerEntries) =>
        if dotted && inner = .header then none
        else alter? dotted change keys (.table inner innerEntries)
      | some (.tables (last :: before)) =>
        (alter? dotted change keys last).map fun last => .tables (last :: before)
      | some _ => none
    return .table origin (replace key inner entries)
  | _, _ => none

/-- Gives a value to a dotted key in a table. The key must be new, and the tables on its way must
all have been made by dotted keys. -/
def assign? (keys : List String) (value : Toml) (d : Draft) : Option Draft :=
  match keys.getLast? with
  | none => none
  | some key =>
    let parents := keys.dropLast
    alter? true (fun origin entries =>
      if (origin = .dotted) = parents.isEmpty then none
      else if (entries.lookup key).isSome then none
      else some (.table origin ((key, .leaf value) :: entries))) parents d

/-- Gives a value to a dotted key in the table under a header. -/
def assignAt? (header keys : List String) (value : Toml) (d : Draft) : Option Draft :=
  alter? false (fun origin entries => assign? keys value (.table origin entries)) header d

/-- Starts the table of a header. Before it, the table may only have been made by the headers of
tables inside it. -/
def openTable? (header : List String) (d : Draft) : Option Draft :=
  match header.getLast? with
  | none => none
  | some key =>
    alter? false (fun origin entries =>
      match entries.lookup key with
      | none => some (.table origin ((key, .table .header []) :: entries))
      | some (.table .parent inner) =>
        some (.table origin (replace key (.table .header inner) entries))
      | some _ => none) header.dropLast d

/-- Starts one more table in the list of a header. -/
def openItem? (header : List String) (d : Draft) : Option Draft :=
  match header.getLast? with
  | none => none
  | some key =>
    alter? false (fun origin entries =>
      match entries.lookup key with
      | none => some (.table origin ((key, .tables [.table .header []]) :: entries))
      | some (.tables items) =>
        some (.table origin (replace key (.tables (.table .header [] :: items)) entries))
      | some _ => none) header.dropLast d

def empty : Draft := .table .header []

mutual

def finish : Draft → Toml
  | .leaf value => value
  | .table _ entries => .table (finishEntries entries)
  | .tables items => .array (finishItems items).reverse

def finishEntries : List (String × Draft) → List (String × Toml)
  | [] => []
  | (key, d) :: entries => (key, d.finish) :: finishEntries entries

def finishItems : List Draft → List Toml
  | [] => []
  | d :: items => d.finish :: finishItems items

end

end Draft
end DocTemplate.Toml
