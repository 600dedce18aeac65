import DocTemplate.Settings
import DocTemplate.Template.Compiled
import DocTemplate.Template.Suggestion
import DocTemplate.Text.Style

/-! Templates in files, and diagnostics with their place in a file. -/

namespace DocTemplate

/-- A template as read from a file. -/
structure TemplateFile where
  path : FilePath
  raw : String
  lines : LineIndex
deriving DecidableEq, Repr

namespace TemplateFile

def ofText (path : FilePath) (raw : String) : TemplateFile := ⟨path, raw, .ofText raw⟩

def id (t : TemplateFile) : String := t.path.text

def location (t : TemplateFile) (d : Diagnostic) : Location := t.lines.location d.position

/-- Reads a template where the settings look for it. Its size is checked before its content is
read. -/
def read (settings : Settings) (fs : FileSystem) (p : FilePath) : Except Failure TemplateFile :=
  let p := settings.templatePath p
  match fs.find p with
  | .ok (.file content) =>
    if settings.maxTemplateSize < content.size then
      .error (.fault (.templateTooLarge p.text content.size settings.maxTemplateSize))
    else
      match String.fromUTF8? content with
      | some raw => .ok (ofText p raw)
      | none => .error (.fault (.templateNotUtf8 p.text))
  | .ok .directory | .error _ => .error (.fault (.templateNotFound p.text))

end TemplateFile

namespace Diagnostic

/-- What a diagnostic means. Tags in full are those that became text. -/
def explanation (d : Diagnostic) : String :=
  match d.kind with
  | .missingVariable => "missing variable '" ++ d.path ++ "'"
  | .unbalancedTag =>
    if d.path = Token.closeTag then
      "'" ++ d.path ++ "' without an open section, kept as text"
    else if d.path.startsWith "\x7b#" then
      "'" ++ d.path ++ "' nested more than " ++ toString maxSectionDepth ++
        " sections deep, kept as text"
    else "section '" ++ d.path ++ "' is never closed, closed at end of template"

/-- The diagnostic in one line, after its place in a template. -/
def line (coloured : Bool) (t : TemplateFile) (d : Diagnostic) : String :=
  let place := t.location d
  t.path.text ++ ":" ++ toString place.line ++ ":" ++ toString place.column ++ ": " ++
    Style.boldYellow.apply coloured "warning" ++ ": " ++ d.explanation

/-- The line of known paths that may have been meant, if there are any. -/
def hint? (coloured : Bool) (context : Value) (d : Diagnostic) : Option String :=
  if d.kind = .missingVariable then
    match Suggestion.nearest d.path context with
    | [] => none
    | paths =>
      some ("  " ++ Style.blue.apply coloured "=" ++ " did you mean: " ++ ", ".intercalate paths)
  else none

/-- The lines about a diagnostic: the diagnostic itself and, if the data is known, a hint. -/
def lines (coloured : Bool) (t : TemplateFile) (context : Option Value) (d : Diagnostic) :
    List String :=
  d.line coloured t :: (context.bind fun context => d.hint? coloured context).toList

end Diagnostic
end DocTemplate
