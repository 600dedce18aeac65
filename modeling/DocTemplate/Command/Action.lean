import DocTemplate.Files.TemplateFile

/-! What commands do: they read and write files, print, and may fail. What was done before a failure
stays done. -/

namespace DocTemplate

/-- The file system and what was printed so far. -/
structure Console where
  files : FileSystem
  stdout : String
  stderr : String

/-- A step of a command. -/
abbrev Action := ExceptT Failure (StateM Console)

namespace Action

def print (s : String) : Action Unit := modify fun c => { c with stdout := c.stdout ++ s }

def printLine (s : String) : Action Unit := print (s ++ "\n")

/-- Prints a line for the user, apart from the output. -/
def tell (s : String) : Action Unit := modify fun c => { c with stderr := c.stderr ++ s ++ "\n" }

def files : Action FileSystem := do return (← get).files

/-- A result that depends on the file system and leaves it as it is. -/
def fromFiles {α : Type} (f : FileSystem → Except Failure α) : Action α := do
  match f (← files) with
  | .ok a => return a
  | .error failure => throw failure

/-- A change of the file system, which may be made in part before it fails. -/
def changeFiles (f : FileSystem → Except Failure Unit × FileSystem) : Action Unit := do
  let (result, fs) := f (← files)
  modify fun c => { c with files := fs }
  match result with
  | .ok () => return ()
  | .error failure => throw failure

/-- Writes a text to a file. The note says what failed if that fails. -/
def writeFile (p : FilePath) (text note : String) : Action Unit :=
  changeFiles fun fs =>
    match fs.write p text.toUTF8 with
    | .ok fs => (.ok (), fs)
    | .error e => (.error (.cause [note] (.system e)), fs)

/-- Writes a text to the output file, or prints it if there is none. The text ends as it does. -/
def deliver (output : Option FilePath) (text : String) : Action Unit :=
  match output with
  | some p => writeFile p text ("Failed to write output to " ++ p.text)
  | none => print text

def tellDiagnostics (coloured : Bool) (t : TemplateFile) (context : Option Value)
    (diagnostics : List Diagnostic) : Action Unit :=
  (diagnostics.flatMap fun d => d.lines coloured t context).forM tell

/-- A result that depends on nothing. -/
def ofResult {α : Type} (result : Except Failure α) : Action α := ExceptT.mk (pure result)

/-- The result of a step, which is no failure of what follows. -/
def attempt {α : Type} (a : Action α) : Action (Except Failure α) := ExceptT.mk (do
  return .ok (← a.run))

end Action
end DocTemplate
