import DocTemplate.Command.Action
import DocTemplate.CommandLine.Invocation
import DocTemplate.Json.Diagnostic
import DocTemplate.Template.Cache

/-! Checking the nesting of templates, and writing one with its nesting repaired. -/

namespace DocTemplate.CheckOptions

/-- A compiled template and the file that it comes from. -/
structure Checked where
  source : TemplateFile
  template : Template

namespace Checked

/-- The lines about a template: whether it is well formed, and its diagnostics. -/
def lines (coloured : Bool) (c : Checked) : List String :=
  let path := c.source.path.text
  if c.template.isWellFormed then [Style.green.apply coloured "✓" ++ " " ++ path]
  else
    let count := toString c.template.diagnostics.length
    (Style.yellow.apply coloured "⚠" ++ " " ++ path ++ " (" ++ count ++ " issue(s))") ::
      c.template.diagnostics.map fun d => "  " ++ d.line coloured c.source

def toJson (c : Checked) : Json :=
  .object [("diagnostics", .array (c.template.diagnostics.map Diagnostic.toJson)),
    ("fingerprint", .string c.template.fingerprint), ("template", .string c.source.id),
    ("well_formed", .bool c.template.isWellFormed)]

end Checked

/-- Reads and compiles a template, unless the cache has it, and in lines reports on it at once. -/
def checkOne (o : CheckOptions) (host : Host) (settings : Settings) (cache : Cache)
    (path : FilePath) : Action (Checked × Cache) := do
  let source ← Action.fromFiles fun fs => TemplateFile.read settings fs path
  let (object, cache) := cache.getOrCompile source.id source.raw
  let checked : Checked := ⟨source, object.template⟩
  if o.format = .text then (checked.lines host.coloured).forM Action.printLine
  return (checked, cache)

/-- Checks templates up to the first that cannot be read. -/
def checkAll (o : CheckOptions) (host : Host) (settings : Settings) (cache : Cache) :
    List FilePath → Action (List Checked)
  | [] => return []
  | path :: paths => do
    let (checked, cache) ← o.checkOne host settings cache path
    return checked :: (← o.checkAll host settings cache paths)

/-- Checks all templates; in JSON the reports come together at the end. -/
def run (o : CheckOptions) (host : Host) (settings : Settings) : Action Unit := do
  let checked ← o.checkAll host settings .empty o.templates
  if o.format = .json then
    Action.printLine (Json.array (checked.map Checked.toJson)).pretty
  let total := (checked.flatMap fun c => c.template.diagnostics).length
  Action.ofResult (Failure.verdict (o.strict || settings.strict) total)

end DocTemplate.CheckOptions

namespace DocTemplate.NormalizeOptions

/-- The text of the balanced tokens, as a template or in Mustache. -/
def document (o : NormalizeOptions) (b : Balanced) : String :=
  if o.mustache then Token.toMustache b.tokens else Token.toDirectives b.tokens

/-- Delivers the repaired text, and tells the user what was repaired. -/
def run (o : NormalizeOptions) (host : Host) (settings : Settings) : Action Unit := do
  let source ← Action.fromFiles fun fs => TemplateFile.read settings fs o.template
  let balanced := Balanced.ofTokens (Token.scan source.raw)
  Action.deliver o.output (o.document balanced)
  Action.tell <|
    "opens=" ++ toString balanced.openCount ++ " closes=" ++ toString balanced.closeCount
  Action.tellDiagnostics host.coloured source none balanced.diagnostics

end DocTemplate.NormalizeOptions
