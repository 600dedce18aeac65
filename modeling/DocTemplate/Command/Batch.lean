import DocTemplate.Command.Action
import DocTemplate.CommandLine.Invocation
import DocTemplate.Files.DataFile
import DocTemplate.Template.Cache

/-! Rendering one template against many data files, one document for each. -/

namespace DocTemplate

/-- A data file and the file that its document goes to. -/
structure Batch.Job where
  data : FilePath
  output : FilePath
deriving DecidableEq, Repr

/-- A document that was written, and what was wrong with it. -/
structure Batch.Item where
  job : Batch.Job
  diagnostics : List Diagnostic
deriving DecidableEq, Repr

namespace Batch

/-- The jobs for data files after those whose names are taken: each document is named for its data
file and ends in `.out`. Two documents must not have one name. -/
def jobs (outDir : FilePath) (taken : List String) : List FilePath → Except Failure (List Job)
  | [] => .ok []
  | data :: rest =>
    match data.stem? with
    | none => .error (.cause [] (.message ("Data file " ++ data.text ++ " has no file name")))
    | some stem =>
      if taken.contains stem then
        .error <| .cause [] <| .message <|
          "Two data files share the name '" ++ stem ++
            "'; their outputs would overwrite each other"
      else do
        let others ← jobs outDir (stem :: taken) rest
        return ⟨data, outDir.join ⟨stem ++ ".out"⟩⟩ :: others

def document (t : Template) (job : Job) (fs : FileSystem) : Except Failure Outcome := do
  return t.render (← DataFile.load fs job.data)

def runJob (t : Template) (job : Job) : Action Item := do
  let outcome ← Action.fromFiles (document t job)
  Action.writeFile job.output outcome.output ("Failed to write " ++ job.output.text)
  return ⟨job, outcome.diagnostics⟩

/-- Runs all jobs, those after a failure too. -/
def runJobs (t : Template) (jobs : List Job) : Action (List (Except Failure Item)) :=
  jobs.mapM fun job => Action.attempt (runJob t job)

/-- The items if all jobs succeeded, and else the first failure. -/
def collect : List (Except Failure Item) → Except Failure (List Item)
  | [] => .ok []
  | .ok item :: results => (collect results).map (item :: ·)
  | .error failure :: _ => .error failure

def Item.line (coloured : Bool) (i : Item) : String :=
  let names := i.job.data.text ++ " -> " ++ i.job.output.text
  if i.diagnostics.isEmpty then Style.green.apply coloured "✓" ++ " " ++ names
  else
    Style.yellow.apply coloured "⚠" ++ " " ++ names ++ " (" ++ toString i.diagnostics.length ++
      " diagnostic(s))"

def report (coloured : Bool) (source : TemplateFile) (i : Item) : Action Unit := do
  Action.printLine (i.line coloured)
  Action.tellDiagnostics coloured source none i.diagnostics

def createOutDir (outDir : FilePath) : Action Unit :=
  Action.changeFiles fun fs =>
    let (made, fs) := fs.createAll outDir
    (made.mapError fun e => .cause ["Failed to create " ++ outDir.text] (.system e), fs)

/-- The most permits that a semaphore can have: all 64 bits set, shifted right by three. -/
def maxPermits : Nat := (Limits.unsigned64 - 1) >>> 3

/-- Makes the semaphore that the jobs get their permits from. It takes no more permits than it can
have, and that is not checked before. -/
def makeSemaphore (permits : Nat) : Except Failure Unit :=
  if permits ≤ maxPermits then .ok ()
  else
    .error <| .crash <|
      "a semaphore may not have more than MAX_PERMITS permits (" ++ toString maxPermits ++ ")"

end Batch

namespace BatchOptions

/-- The number of jobs that may be under way at once: one at least. -/
def permits (o : BatchOptions) (host : Host) (settings : Settings) : Nat :=
  max 1 (o.maxParallel.getD (settings.parallelism host))

/-- Renders all documents. The documents do not depend on each other, so that they are rendered in
the order of the list, whatever the number of permits. -/
def run (o : BatchOptions) (host : Host) (settings : Settings) : Action Unit := do
  let source ← Action.fromFiles fun fs => TemplateFile.read settings fs o.template
  let (object, _) := Cache.empty.getOrCompile source.id source.raw
  let jobs ← Action.ofResult (Batch.jobs o.outDir [] o.data)
  Batch.createOutDir o.outDir
  Action.ofResult (Batch.makeSemaphore (o.permits host settings))
  let items ← Action.ofResult (Batch.collect (← Batch.runJobs object.template jobs))
  items.forM (Batch.report host.coloured source)
  Action.printLine <|
    "Rendered " ++ toString items.length ++ " document(s) into " ++ o.outDir.text
  let total := (items.flatMap fun i => i.diagnostics).length
  Action.ofResult (Failure.verdict (o.strict || settings.strict) total)

end BatchOptions
end DocTemplate
