import DocTemplate.Data.Value
import DocTemplate.Text.Names

/-! The dotted paths that a value defines.

Every key of a mapping has a path, whether a container or a scalar stands under it. The elements of
a sequence have the paths of the sequence itself, which is how they are addressed inside a loop. -/

namespace DocTemplate.Value

/-- The path of a key under a prefix; under the empty prefix it is the key alone. -/
def extend (path key : String) : String := if path.isEmpty then key else path ++ "." ++ key

mutual

/-- The paths below a value that stands at `path`. -/
def pathsBelow (path : String) : Value → List String
  | .mapping fields => pathsOfFields path fields
  | .sequence items => pathsOfItems path items
  | .null | .bool _ | .number _ | .string _ => []

def pathsOfFields (path : String) {before : Option String} :
    FieldsAfter Value before → List String
  | .nil => []
  | .cons key _ v fields =>
    extend path key :: pathsBelow (extend path key) v ++ pathsOfFields path fields

def pathsOfItems (path : String) : List Value → List String
  | [] => []
  | v :: vs => pathsBelow path v ++ pathsOfItems path vs

end

/-- The paths that a value defines, in order and each once. -/
def knownPaths (v : Value) : Names := Names.ofList (v.pathsBelow "")

end DocTemplate.Value
