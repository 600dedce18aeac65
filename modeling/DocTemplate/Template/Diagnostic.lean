import DocTemplate.Text.Lines

/-! Diagnostics: what was wrong with a template or its data without stopping the work. -/

namespace DocTemplate

/-- A variable without a value, or a structural tag without a partner. -/
inductive Diagnostic.Kind where
  | missingVariable
  | unbalancedTag
deriving DecidableEq, Repr

/-- One anomaly: the path or tag that it is about and the byte of the template where it stands. -/
structure Diagnostic where
  kind : Diagnostic.Kind
  path : String
  position : Nat
deriving DecidableEq, Repr

namespace Diagnostic

def missingVariable (path : String) (position : Nat) : Diagnostic :=
  ⟨.missingVariable, path, position⟩

def unbalancedTag (path : String) (position : Nat) : Diagnostic :=
  ⟨.unbalancedTag, path, position⟩

def Kind.words : Kind → String
  | .missingVariable => "missing variable"
  | .unbalancedTag => "unbalanced tag"

def Kind.tag : Kind → String
  | .missingVariable => "missing_variable"
  | .unbalancedTag => "unbalanced_tag"

def Kind.ofTag? : String → Option Kind
  | "missing_variable" => some .missingVariable
  | "unbalanced_tag" => some .unbalancedTag
  | _ => none

/-- The diagnostic in one line, without the name of the template. -/
def summary (d : Diagnostic) : String :=
  d.kind.words ++ " '" ++ d.path ++ "' at offset " ++ toString d.position

/-- The place of the diagnostic in the text of its template. -/
def location (raw : String) (d : Diagnostic) : Location :=
  (LineIndex.ofText raw).location d.position

end Diagnostic
end DocTemplate
