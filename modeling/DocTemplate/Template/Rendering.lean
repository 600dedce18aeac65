import DocTemplate.Template.Nesting
import DocTemplate.Template.Scope
import DocTemplate.Template.Tree
import DocTemplate.Json.Basic

/-! Rendering a tree against the data of a document.

Rendering never fails: a variable without a value is left out and reported, and a section whose name
has no value is left out without a report. -/

namespace DocTemplate

/-- The text of a document and what was wrong with it. -/
structure Outcome where
  output : String
  diagnostics : List Diagnostic
deriving DecidableEq, Repr

namespace Outcome

def isClean (o : Outcome) : Bool := o.diagnostics.isEmpty

def missingVariables (o : Outcome) : List Diagnostic :=
  o.diagnostics.filter fun d => d.kind == .missingVariable

def unbalancedTags (o : Outcome) : List Diagnostic :=
  o.diagnostics.filter fun d => d.kind == .unbalancedTag

end Outcome

/-- The state of rendering: the values in scope, the number of sections entered, and the outcome so
far. -/
structure Rendering where
  scope : Scope
  depth : Nat
  output : String
  diagnostics : List Diagnostic
deriving Repr

namespace Rendering

/-- Rendering starts outside all sections, with nothing written. -/
def start (context : Value) : Rendering := ⟨.ofRoot context, 0, "", []⟩

def write (r : Rendering) (s : String) : Rendering := { r with output := r.output ++ s }

def report (r : Rendering) (d : Diagnostic) : Rendering :=
  { r with diagnostics := r.diagnostics ++ [d] }

def enter (r : Rendering) (f : Scope.Frame) : Rendering := { r with scope := r.scope.push f }

def leave (r : Rendering) : Rendering := { r with scope := r.scope.pop }

/-- Writes the value of a variable. A path without segments names nothing. -/
def variableAt (r : Rendering) (path : Path) (position : Nat) : Rendering :=
  if path.isEmpty then r
  else
    match r.scope.lookup? path with
    | some v => r.write v.text
    | none => r.report (.missingVariable path.text position)

mutual

/-- Renders one node. A section beyond the depth limit is left out and reported. -/
def node (r : Rendering) : Node → Rendering
  | .text s => r.write s
  | .var path position => r.variableAt path position
  | .sect name path position children =>
    if maxSectionDepth ≤ r.depth then r.report (.unbalancedTag (Token.openTag name) position)
    else
      let passes := r.scope.passes name path
      let r := { r with depth := r.depth + 1 }
      let r := passes.foldl (fun r pass =>
        match pass with
        | none => r.nodes children
        | some f => ((r.enter f).nodes children).leave) r
      { r with depth := r.depth - 1 }

def nodes (r : Rendering) : List Node → Rendering
  | [] => r
  | n :: ns => (r.node n).nodes ns

end

def outcome (r : Rendering) : Outcome := ⟨r.output, r.diagnostics⟩

end Rendering

/-- The document that a tree makes of the data. -/
def Node.render (n : Node) (context : Value) : Outcome :=
  ((Rendering.start context).nodes n.children).outcome

end DocTemplate
