import DocTemplate.Command.Action
import DocTemplate.CommandLine.Invocation
import DocTemplate.Data.Resolve
import DocTemplate.Files.DataFile
import DocTemplate.Template.References

/-! Listing the names that a template refers to, and whether data has them. -/

namespace DocTemplate

/-- A name, and whether it was found if that was asked. -/
structure Coverage.Entry where
  name : String
  found : Option Bool
deriving DecidableEq, Repr

/-- The names of the variables and of the sections of a template. -/
structure Coverage where
  vars : List Coverage.Entry
  sects : List Coverage.Entry
deriving DecidableEq, Repr

namespace Coverage

/-- The names alone. -/
def ofTemplate (t : Template) : Coverage :=
  let refs := References.ofNode t.root
  let entry (name : String) : Entry := ⟨name, none⟩
  ⟨refs.vars.map entry, refs.sects.map entry⟩

/-- The names checked against data: a variable is found if rendering misses it nowhere, and a
section if its name has a value in the data itself. -/
def ofTemplateAgainst (t : Template) (context : Value) : Coverage :=
  let refs := References.ofNode t.root
  let missing := (t.render context).missingVariables.map Diagnostic.path
  let found (name : String) : Bool := (context.resolve? (Path.parse name).segments).isSome
  ⟨refs.vars.map fun name => ⟨name, some !(missing.contains name)⟩,
    refs.sects.map fun name => ⟨name, some (found name)⟩⟩

namespace Entry

def toJson (e : Entry) : Json :=
  .object <| ("name", .string e.name) :: (e.found.map fun found => ("found", .bool found)).toList

def line (coloured : Bool) (e : Entry) : String :=
  match e.found with
  | none => "  " ++ e.name
  | some true => "  " ++ Style.green.apply coloured "✓" ++ " " ++ e.name
  | some false => "  " ++ Style.red.apply coloured "✗" ++ " " ++ e.name

end Entry

def toJson (c : Coverage) : Json :=
  .object [("variables", .array (c.vars.map Entry.toJson)),
    ("sections", .array (c.sects.map Entry.toJson))]

/-- The lines of a list under its title. -/
def listing (coloured : Bool) (title : String) (entries : List Entry) : List String :=
  (Style.bold.apply coloured title ++ ":") ::
    if entries.isEmpty then ["  (none)"] else entries.map (Entry.line coloured)

def lines (coloured : Bool) (c : Coverage) : List String :=
  listing coloured "Variables" c.vars ++ listing coloured "Sections" c.sects

end Coverage

/-- Lists the names of a template, checked against data if a file is given. -/
def VariablesOptions.run (o : VariablesOptions) (host : Host) (settings : Settings) :
    Action Unit := do
  let source ← Action.fromFiles fun fs => TemplateFile.read settings fs o.template
  let template := Template.compile source.raw
  let coverage ← match o.context with
    | none => pure (Coverage.ofTemplate template)
    | some path => do
      let context ← Action.fromFiles fun fs => DataFile.load fs path
      pure (Coverage.ofTemplateAgainst template context)
  match o.format with
  | .json => Action.printLine coverage.toJson.pretty
  | .text => (coverage.lines host.coloured).forM Action.printLine

end DocTemplate
