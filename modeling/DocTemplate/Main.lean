import DocTemplate.Command.Paths
import DocTemplate.Command.Session

/-! The program. It looks at the part of the disk that a command concerns, runs the command on that,
prints what the command printed, and writes back what the command changed. -/

namespace DocTemplate.Program

/-- The path from the root to a place. -/
def pathTo (place : Place) : String := "/" ++ "/".intercalate place

/-- What stands at a place on the disk. A file that cannot be read counts as absent. -/
def look (place : Place) : IO (Option Entry) := do
  match ← (IO.FS.readBinFile (pathTo place)).toBaseIO with
  | .ok content => return some (.file content)
  | .error (.inappropriateType ..) => return some .directory
  | .error _ => return none

/-- Adds the entry at a place on the disk. Under a file there is nothing to add. -/
def addEntry (fs : FileSystem) (place : Place) : IO FileSystem := do
  if (fs.entry? place).isSome || fs.entry? place.dropLast ≠ some .directory then return fs
  match ← look place with
  | some e => return fs.set place e
  | none => return fs

/-- Adds all that stands on the ways of some paths. -/
def addPaths (fs : FileSystem) (paths : List FilePath) : IO FileSystem :=
  (paths.flatMap (FilePath.places fs.current)).foldlM addEntry fs

/-- The working directory and those around it. -/
def workingDirectory : IO FileSystem := do
  let path : FilePath := ⟨toString (← IO.currentDir)⟩
  let current := path.parts.filter fun part => !part.isEmpty
  (Place.after [] current).foldlM addEntry ⟨[], current, []⟩

/-- What a command concerns on the disk: its configuration file first, since the settings tell where
templates are. -/
def concerned (i : Invocation) (host : Host) : IO FileSystem := do
  let located := i.configPath.or (Settings.locate host).toOption
  let fs ← addPaths (← workingDirectory) located.toList
  match Settings.load host fs i.configPath with
  | .ok settings => addPaths fs (i.command.paths settings)
  | .error _ => return fs

/-- Writes the entries that are new or changed. A directory comes before what is in it. -/
def writeBack (before after : FileSystem) : IO Unit :=
  after.entries.forM fun (place, e) => do
    if before.entry? place ≠ some e then
      match e with
      | .directory => IO.FS.createDirAll (pathTo place)
      | .file content => IO.FS.writeBinFile (pathTo place) content

/-- The number of processors where it is not known. -/
def assumedCores : Nat := 4

/-- A value of the environment, unless it is empty. -/
def environment? (name : String) : IO (Option String) := do
  return (← IO.getEnv name).filter fun value => !value.isEmpty

/-- Whether output is coloured: if it is forced, or on a terminal that does not refuse it. -/
def coloured : IO Bool := do
  if (← IO.getEnv "CLICOLOR_FORCE").any (· ≠ "0") then return true
  if (← IO.getEnv "NO_COLOR").isSome || (← IO.getEnv "CLICOLOR") == some "0" then return false
  (← IO.getStdout).isTty

def currentHost : IO Host := do
  return ⟨← environment? "HOME", ← environment? "DOCGEN_CONFIG", assumedCores, ← coloured⟩

/-- Runs the command line and answers with the exit code. -/
def run (args : List String) : IO Nat := do
  match Invocation.ofArgs args with
  | .error usage =>
    if usage.exitCode = 0 then IO.print usage.text else IO.eprint usage.text
    return usage.exitCode
  | .ok i =>
    let host ← currentHost
    let fs ← concerned i host
    let session := Session.run i host fs
    writeBack fs session.console.files
    IO.print session.console.stdout
    IO.eprint session.console.stderr
    if let some (.crash reason) := session.failure then IO.eprintln reason
    return session.exitCode

end DocTemplate.Program

def main (args : List String) : IO UInt32 := do
  return (← DocTemplate.Program.run args).toUInt32
