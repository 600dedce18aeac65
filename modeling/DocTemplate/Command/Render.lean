import DocTemplate.Command.Action
import DocTemplate.CommandLine.Invocation
import DocTemplate.Files.DataFile
import DocTemplate.Json.Diagnostic

/-! Rendering one template against layers of data. -/

namespace DocTemplate

/-- A diagnostic with its place in a template. -/
def TemplateFile.diagnosticJson (t : TemplateFile) (d : Diagnostic) : Json :=
  let place := t.location d
  .object [("column", .nat place.column), ("kind", .string d.kind.tag), ("line", .nat place.line),
    ("path", .string d.path), ("position", .nat d.position)]

/-- The report about a rendered document, which contains the document. -/
def TemplateFile.outcomeJson (t : TemplateFile) (outcome : Outcome) : Json :=
  .object [("diagnostics", .array (outcome.diagnostics.map t.diagnosticJson)),
    ("output", .string outcome.output)]

namespace RenderOptions

/-- The template, the data, and what they make, all before anything is written. -/
def prepare (o : RenderOptions) (settings : Settings) (fs : FileSystem) :
    Except Failure (TemplateFile × Value × Outcome) := do
  let source ← TemplateFile.read settings fs o.template
  let context ← DataFile.loadLayers fs o.data
  return (source, context, (Template.compile source.raw).render context)

/-- The text to deliver. Printed JSON ends its line. -/
def document (o : RenderOptions) (source : TemplateFile) (outcome : Outcome) : String :=
  match o.format with
  | .text => outcome.output
  | .json =>
    let text := (source.outcomeJson outcome).pretty
    if o.output.isSome then text else text ++ "\n"

/-- Renders the document and delivers it. In lines, the diagnostics go to the user; in JSON they are
in the document. -/
def run (o : RenderOptions) (host : Host) (settings : Settings) : Action Unit := do
  let (source, context, outcome) ← Action.fromFiles (o.prepare settings)
  Action.deliver o.output (o.document source outcome)
  if o.format = .text then
    Action.tellDiagnostics host.coloured source (some context) outcome.diagnostics
  Action.ofResult (Failure.verdict (o.strict || settings.strict) outcome.diagnostics.length)

end RenderOptions
end DocTemplate
