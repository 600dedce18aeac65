import DocTemplate.Template.Tree
import DocTemplate.Text.Names

/-! The paths that a template refers to. -/

namespace DocTemplate

/-- The paths of the variables and of the sections in a template, as written. -/
structure References where
  vars : Names
  sects : Names
deriving DecidableEq, Repr

namespace References

def isEmpty (r : References) : Bool := r.vars.isEmpty && r.sects.isEmpty

/-- The text of a path, unless it has no segments and so refers to nothing. -/
def written? (p : Path) : Option String := if p.isEmpty then none else some p.text

def variablePath? : Node → Option String
  | .var path _ => written? path
  | .text _ | .sect .. => none

def sectionPath? : Node → Option String
  | .sect _ path _ _ => written? path
  | .text _ | .var .. => none

def ofNode (n : Node) : References :=
  ⟨.ofList (n.walk.filterMap variablePath?), .ofList (n.walk.filterMap sectionPath?)⟩

end References
end DocTemplate
