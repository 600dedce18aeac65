import DocTemplate.Text.Bytes

/-! Paths of files as texts. The operations here look at the text alone. -/

namespace DocTemplate

/-- A path as written. -/
structure FilePath where
  text : String
deriving DecidableEq, Repr

namespace FilePath

/-- The parts between slashes; two slashes have an empty part between them. -/
def parts (p : FilePath) : List String :=
  (Text.splitOn '/' p.text.toList).map String.ofList

def isAbsolute (p : FilePath) : Bool := p.text.startsWith "/"

/-- A part that names nothing: the empty one and a dot. -/
def isVoid (part : String) : Bool := part.isEmpty || part == "."

/-- The parts after the root, without those at the end that name nothing. A dot at the start of a
relative path is kept. -/
def meaningful (p : FilePath) : List String :=
  if p.isAbsolute then (p.parts.drop 1).reverse.dropWhile isVoid |>.reverse
  else
    match p.parts with
    | "." :: parts => "." :: (parts.reverse.dropWhile isVoid).reverse
    | parts => (parts.reverse.dropWhile isVoid).reverse

/-- The path of parts, after the root if it is absolute. -/
def ofParts (absolute : Bool) (parts : List String) : FilePath :=
  ⟨(if absolute then "/" else "") ++ "/".intercalate parts⟩

/-- The name of the file. A path that ends in a dot or two, or in the root, has none. -/
def fileName? (p : FilePath) : Option String :=
  match p.meaningful.getLast? with
  | some name => if name = "." ∨ name = ".." then none else some name
  | none => none

/-- The path without its last part; the root and the empty path have none. -/
def parent? (p : FilePath) : Option FilePath :=
  match p.meaningful with
  | [] => none
  | parts => some (ofParts p.isAbsolute (ofParts p.isAbsolute parts.dropLast).meaningful)

/-- A name before and after its last dot. A dot at the start of a name separates nothing. -/
def splitName (name : String) : String × Option String :=
  let after := name.toList.reverse.takeWhile (· != '.')
  match name.toList.reverse.dropWhile (· != '.') with
  | _ :: before =>
    if before.isEmpty then (name, none)
    else (String.ofList before.reverse, some (String.ofList after.reverse))
  | [] => (name, none)

/-- The name of the file without its extension. -/
def stem? (p : FilePath) : Option String := p.fileName?.map fun name => (splitName name).1

def extension? (p : FilePath) : Option String := p.fileName?.bind fun name => (splitName name).2

/-- The path `q` seen from `p`. An absolute path stays as it is. -/
def join (p q : FilePath) : FilePath :=
  if q.isAbsolute then q
  else if p.text.isEmpty || p.text.endsWith "/" then ⟨p.text ++ q.text⟩
  else ⟨p.text ++ "/" ++ q.text⟩

end FilePath
end DocTemplate
