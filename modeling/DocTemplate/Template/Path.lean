import DocTemplate.Text.Bytes

/-! Dotted paths into the data of a document. -/

namespace DocTemplate

/-- A path as its segments. A path that starts with a dot is anchored: it is looked up in the
document's data and in no enclosing section. -/
structure Path where
  segments : List String
  anchored : Bool
deriving DecidableEq, Repr

namespace Path

/-- Cuts a text at its dots; the empty text has no segments. -/
def segmentsOf : List Char → List String
  | [] => []
  | cs => (Text.splitOn '.' cs).map String.ofList

/-- Reads a path. Every text is a path. -/
def parse (text : String) : Path :=
  match text.toList with
  | '.' :: cs => ⟨segmentsOf cs, true⟩
  | cs => ⟨segmentsOf cs, false⟩

/-- A path from its segments, looked up from the innermost section outwards. -/
def ofSegments (segments : List String) : Path := ⟨segments, false⟩

def isEmpty (p : Path) : Bool := p.segments.isEmpty

def text (p : Path) : String :=
  (if p.anchored then "." else "") ++ ".".intercalate p.segments

/-- The path after its first segment, if that is `head` and something follows it. -/
def stripHead? (p : Path) (head : String) : Option Path :=
  match p.segments with
  | first :: second :: rest => if first = head then some (ofSegments (second :: rest)) else none
  | _ => none

end Path
end DocTemplate
