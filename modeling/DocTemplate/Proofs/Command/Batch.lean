import DocTemplate.Proofs.Command.Schedule
import DocTemplate.Proofs.Data.Fields

/-! The batch command. All that it does with its jobs is to run them, so it can be run with any way
to run jobs. Where no file has further names, and with no more permits than a semaphore can have, it
ends with the result of the jobs one after the other in every order of their steps, and leaves the
same files. -/

namespace DocTemplate

namespace Batch

open FileSystem

/-! ### Ways to run jobs -/

/-- Runs jobs with a number of permits, and returns their results in the order of the jobs. -/
abbrev Executor := Nat → Template → List Job → Action (List (Except Failure Item))

/-- Each job has the result that it has alone, and all documents are delivered, where no file has
further names. -/
def Executor.Delivers (execute : Executor) : Prop :=
  ∀ (outDir : FilePath) (permits : Nat) (t : Template) (jobs : List Job) (c : Console),
    0 < permits → c.files.links = [] → IsBatch outDir jobs →
    ∃ fs, (execute permits t jobs).runOn c =
        (.ok (jobs.map fun job => (perform t c.files job).1), { c with files := fs }) ∧
      Delivered t outDir c.files jobs fs

theorem delivers_runJobs : Executor.Delivers fun _ => runJobs := by
  intro outDir permits t jobs c _ hLinks hBatch
  obtain ⟨fs, hRun, hDelivered⟩ := runOn_runJobs hBatch c (delivered_nil t outDir hLinks)
    (fun _ hJob => absurd hJob List.not_mem_nil) (fun _ hJob => hJob)
  exact ⟨fs, hRun, hDelivered.congr fun job => by simp⟩

/-- Picks the order in which jobs take their steps. It goes on until all of them have finished, and
may otherwise depend on anything. -/
structure Scheduler where
  order : Nat → Template → List Job → FileSystem → List Nat
  finishes : ∀ permits t jobs fs, 0 < permits →
    ((Pool.start jobs fs).run t permits (order permits t jobs fs)).IsFinished

namespace Scheduler

def execute (s : Scheduler) : Executor := fun permits t jobs => do
  let fs ← Action.files
  let pool := (Pool.start jobs fs).run t permits (s.order permits t jobs fs)
  modify fun c => { c with files := pool.files }
  return pool.results

theorem runOn_execute (s : Scheduler) (permits : Nat) (t : Template) (jobs : List Job)
    (c : Console) :
    (s.execute permits t jobs).runOn c =
      let pool := (Pool.start jobs c.files).run t permits (s.order permits t jobs c.files)
      (.ok pool.results, { c with files := pool.files }) := rfl

theorem delivers (s : Scheduler) : s.execute.Delivers := by
  intro outDir permits t jobs c hPermits hLinks hBatch
  have hSound := (Pool.sound_start t outDir jobs hLinks).run hBatch permits
    (s.order permits t jobs c.files)
  obtain ⟨hResults, hDelivered⟩ := hSound.finished (s.finishes permits t jobs c.files hPermits)
  refine ⟨_, ?_, hDelivered⟩
  rw [runOn_execute]
  dsimp only
  rw [hResults]

/-- The scheduler that lets the last job go on for as long as it can. -/
def lastFirst : Scheduler where
  order permits t jobs fs := (Pool.start jobs fs).lastFirst t permits (3 * jobs.length)
  finishes permits t jobs fs hPermits := by
    refine Pool.isFinished_lastFirst t hPermits (Nat.le_of_eq ?_)
    rw [Pool.remaining, Pool.start, List.map_map]
    show (jobs.map fun _ => 3).sum = _
    simp [Nat.mul_comm]

/-- Every order of steps in which all jobs finish is one that a scheduler picks. -/
theorem exists_order {permits : Nat} {t : Template} {jobs : List Job} {fs : FileSystem}
    {schedule : List Nat} (h : ((Pool.start jobs fs).run t permits schedule).IsFinished) :
    ∃ s : Scheduler, s.order permits t jobs fs = schedule := by
  classical
  let order := fun permits' t' jobs' fs' =>
    if permits' = permits ∧ t' = t ∧ jobs' = jobs ∧ fs' = fs then schedule
    else lastFirst.order permits' t' jobs' fs'
  refine ⟨⟨order, fun permits' t' jobs' fs' hPermits => ?_⟩, if_pos ⟨rfl, rfl, rfl, rfl⟩⟩
  dsimp only [order]
  split
  · next hSame =>
    obtain ⟨rfl, rfl, rfl, rfl⟩ := hSame
    exact h
  · exact lastFirst.finishes permits' t' jobs' fs' hPermits

end Scheduler

/-! ### The results together -/

theorem collect_first {before after : List (Except Failure Item)} {failure : Failure}
    (h : ∀ result ∈ before, ∃ item, result = .ok item) :
    collect (before ++ .error failure :: after) = .error failure := by
  induction before with
  | nil => rfl
  | cons result before ih =>
    obtain ⟨⟨item, rfl⟩, hBefore⟩ := List.forall_mem_cons.mp h
    rw [List.cons_append, collect, ih hBefore]
    rfl

/-- What a batch leaves behind when its jobs have run on the files `fs`: the result of the command
and the files `fs'`. -/
structure Rendered (outDir : FilePath) (t : Template) (fs : FileSystem) (jobs : List Job)
    (result : Except Failure Unit) (fs' : FileSystem) : Prop where
  output : ∀ job ∈ jobs, ∃ stem, job.data.stem? = some stem ∧
    job.output = outDir.join ⟨stem ++ ".out"⟩
  distinct : (jobs.map Job.output).Nodup
  /-- A document is written unless that fails, whatever becomes of the others. -/
  written : ∀ job ∈ jobs, ∀ v, DataFile.load fs job.data = .ok v →
    (fs.write job.output (t.render v).output.toUTF8).isOk = true →
      fs'.read job.output = .ok (t.render v).output.toUTF8
  /-- Nothing else is written. -/
  others : ∀ place, fs'.entry? place = fs.entry? place ∨
    ∃ job ∈ jobs, ∃ v, DataFile.load fs job.data = .ok v ∧
      fs.site outDir job.name = .ok place
  failed : ∀ before job after failure, jobs = before ++ job :: after →
    (∀ other ∈ before, ∃ item, (perform t fs other).1 = .ok item) →
    (perform t fs job).1 = .error failure → result = .error failure

variable {t : Template} {outDir : FilePath} {fs fs' : FileSystem} {jobs : List Job}

theorem document_eq_ok {job : Job} {outcome : Outcome} :
    document t job fs = .ok outcome ↔
      ∃ v, DataFile.load fs job.data = .ok v ∧ t.render v = outcome := by
  rw [document]
  cases DataFile.load fs job.data with
  | error failure => simp [bind, Except.bind]
  | ok v => simp [bind, Except.bind, pure, Except.pure]

theorem Delivered.read (h : Delivered t outDir fs jobs fs') (hBatch : IsBatch outDir jobs)
    {job : Job} (hJob : job ∈ jobs) {v : Value} (hLoad : DataFile.load fs job.data = .ok v)
    (hWrite : (fs.write job.output (t.render v).output.toUTF8).isOk = true) :
    fs'.read job.output = .ok (t.render v).output.toUTF8 := by
  have hName := hBatch.isFileName hJob
  rw [hBatch.output job hJob, write_eq_site fs outDir hName] at hWrite
  cases hSite : fs.site outDir job.name with
  | error e =>
    rw [hSite] at hWrite
    contradiction
  | ok place =>
    have hPut : put? t outDir fs job = some (place, (t.render v).output.toUTF8) := by
      rw [put?, document_eq_ok.mpr ⟨v, hLoad, rfl⟩, hSite]
    have hEntry := h.put job hJob place _ hPut
    obtain ⟨around, hInside, rfl, -⟩ := site_eq_ok hSite
    have hFind : fs'.find job.output = .ok (.file (t.render v).output.toUTF8) := by
      rw [hBatch.output job hJob, find_join fs' outDir hName, h.inside, hInside]
      dsimp only
      rw [hEntry]
    rw [FileSystem.read, hFind]
    rfl

theorem Delivered.rendered (h : Delivered t outDir fs jobs fs') (hBatch : IsBatch outDir jobs)
    {result : Except Failure Unit}
    (hResult : ∀ failure, collect (jobs.map fun job => (perform t fs job).1) = .error failure →
      result = .error failure) :
    Rendered outDir t fs jobs result fs' where
  output job hJob := by
    obtain ⟨stem, hStem⟩ := Option.ne_none_iff_exists'.mp (hBatch.named job hJob)
    have hOutput := hBatch.output job hJob
    rw [Job.name, hStem] at hOutput
    exact ⟨stem, hStem, hOutput⟩
  distinct := hBatch.nodup_outputs
  written job hJob v hLoad hWrite := h.read hBatch hJob hLoad hWrite
  others place := by
    by_cases hPut : ∃ job ∈ jobs, ∃ content, put? t outDir fs job = some (place, content)
    · obtain ⟨job, hJob, content, hHere⟩ := hPut
      obtain ⟨outcome, hDocument, hSite, -⟩ := put?_eq_some hHere
      obtain ⟨v, hLoad, -⟩ := document_eq_ok.mp hDocument
      exact .inr ⟨job, hJob, v, hLoad, hSite⟩
    · exact .inl (h.kept place fun job hJob content hHere => hPut ⟨job, hJob, content, hHere⟩)
  failed before job after failure hJobs hBefore hFailed := by
    refine hResult failure ?_
    rw [hJobs, List.map_append, List.map_cons, hFailed]
    refine collect_first fun result hMem => ?_
    obtain ⟨other, hOther, rfl⟩ := List.mem_map.mp hMem
    exact hBefore other hOther

theorem jobs_iff {data : List FilePath} :
    (∃ js, Batch.jobs outDir [] data = .ok js) ↔
      (∀ p ∈ data, p.stem? ≠ none) ∧ (data.map FilePath.stem?).Nodup := by
  rw [exists_jobs_iff]
  simp

/-- A semaphore is made exactly with the permits that it can have. -/
theorem makeSemaphore_cases (permits : Nat) :
    permits ≤ maxPermits ∧ makeSemaphore permits = .ok () ∨
      maxPermits < permits ∧ ∃ reason, makeSemaphore permits = .error (.crash reason) := by
  rw [makeSemaphore]
  split
  · next h => exact .inl ⟨h, rfl⟩
  · next h => exact .inr ⟨Nat.lt_of_not_le h, _, rfl⟩

end Batch

namespace FileSystem

theorem links_makeDirectory {fs fs' : FileSystem} {p : FilePath}
    (h : fs.makeDirectory p = .ok fs') : fs'.links = fs.links := by
  rw [makeDirectory] at h
  cases hTarget : fs.target p with
  | error e =>
    rw [hTarget] at h
    contradiction
  | ok t =>
    simp only [hTarget, bind, Except.bind] at h
    split at h
    · contradiction
    · exact Except.ok.inj h ▸ rfl

theorem links_makeDirectories (fs : FileSystem) (fuel : Nat) (p : FilePath) :
    (fs.makeDirectories fuel p).2.links = fs.links := by
  induction fuel generalizing fs p with
  | zero => rfl
  | succ fuel ih =>
    rw [makeDirectories]
    split
    · rfl
    · split
      · next hMade => exact links_makeDirectory hMade
      · split
        · next parent _ _ =>
          have hAround := ih fs parent
          split
          · next hParent => rwa [hParent] at hAround
          · next hParent =>
            rw [hParent] at hAround
            split
            · next hMade => exact (links_makeDirectory hMade).trans hAround
            · exact hAround
        · rfl

theorem createAll_of_isDirectory {fs : FileSystem} {p : FilePath}
    (h : fs.isDirectory p = true) : fs.createAll p = (.ok (), fs) := by
  have hMake : fs.makeDirectory p = .error .fileExists := by
    rw [isDirectory, find] at h
    rw [makeDirectory]
    cases hTarget : fs.target p with
    | error e =>
      rw [hTarget] at h
      contradiction
    | ok t =>
      cases hEntry : t.entry with
      | none =>
        rw [hTarget] at h
        simp [bind, Except.bind, hEntry] at h
      | some e => simp [bind, Except.bind, hEntry]
  have hKind : SystemError.fileExists.kind = .other := rfl
  rw [createAll, makeDirectories, hMake]
  split
  · rfl
  · simp only [hKind]

end FileSystem

/-! ### The command -/

namespace BatchOptions

open Batch

variable (o : BatchOptions) (host : Host) (settings : Settings)

theorem permits_pos : 0 < o.permits host settings := Nat.lt_of_lt_of_le Nat.zero_lt_one
  (Nat.le_max_left _ _)

/-- What the command does when all jobs have been run. -/
def conclude (source : TemplateFile) (results : List (Except Failure Item)) : Action Unit := do
  let items ← Action.ofResult (Batch.collect results)
  items.forM (Batch.report host.coloured source)
  Action.printLine <|
    "Rendered " ++ toString items.length ++ " document(s) into " ++ o.outDir.text
  let total := (items.flatMap fun i => i.diagnostics).length
  Action.ofResult (Failure.verdict (o.strict || settings.strict) total)

/-- The command with a way to run its jobs. -/
def runWith (execute : Executor) : Action Unit := do
  let source ← Action.fromFiles fun fs => TemplateFile.read settings fs o.template
  let (object, _) := Cache.empty.getOrCompile source.id source.raw
  let jobs ← Action.ofResult (Batch.jobs o.outDir [] o.data)
  Batch.createOutDir o.outDir
  Action.ofResult (Batch.makeSemaphore (o.permits host settings))
  o.conclude host settings source (← execute (o.permits host settings) object.template jobs)

theorem run_eq_runWith : o.run host settings = o.runWith host settings fun _ => runJobs := rfl

theorem prints_conclude (source : TemplateFile) (results : List (Except Failure Item)) :
    (o.conclude host settings source results).Prints := by
  refine (Action.prints_ofResult _).bind fun items => ?_
  have hReport : ∀ item, (Batch.report host.coloured source item).Prints := fun item =>
    (Action.prints_print _).bind fun _ => Action.prints_tellDiagnostics _ _ _ _
  refine (Action.Prints.forM hReport items).bind fun _ => ?_
  exact (Action.prints_print _).bind fun _ => Action.prints_ofResult _

/-- How far the command gets before it runs its jobs. -/
theorem runOn_runWith (execute : Executor) (c : Console) :
    (o.runWith host settings execute).runOn c =
      match TemplateFile.read settings c.files o.template, Batch.jobs o.outDir [] o.data,
        c.files.createAll o.outDir, makeSemaphore (o.permits host settings) with
      | .error failure, _, _, _ => (.error failure, c)
      | .ok _, .error failure, _, _ => (.error failure, c)
      | .ok _, .ok _, (.error e, fs), _ =>
        (.error (.cause ["Failed to create " ++ o.outDir.text] (.system e)), { c with files := fs })
      | .ok _, .ok _, (.ok (), fs), .error failure => (.error failure, { c with files := fs })
      | .ok source, .ok jobs, (.ok (), fs), .ok () =>
        (execute (o.permits host settings) (.compile source.raw) jobs >>=
          o.conclude host settings source).runOn { c with files := fs } := by
  have hRead := Action.runOn_fromFiles
    (fun fs => TemplateFile.read settings fs o.template) c
  have hJobs := Action.runOn_ofResult (Batch.jobs o.outDir [] o.data) c
  have hCreate : (Batch.createOutDir o.outDir).runOn c =
      ((c.files.createAll o.outDir).1.mapError fun e =>
        .cause ["Failed to create " ++ o.outDir.text] (.system e),
        { c with files := (c.files.createAll o.outDir).2 }) :=
    Action.runOn_changeFiles _ c
  rw [runWith]
  cases hSource : TemplateFile.read settings c.files o.template with
  | error failure =>
    rw [hSource] at hRead
    exact Action.runOn_bind_error hRead _
  | ok source =>
    rw [hSource] at hRead
    rw [Action.runOn_bind_ok hRead]
    dsimp only
    cases hList : Batch.jobs o.outDir [] o.data with
    | error failure =>
      rw [hList] at hJobs
      exact Action.runOn_bind_error hJobs _
    | ok jobs =>
      rw [hList] at hJobs
      rw [Action.runOn_bind_ok hJobs]
      generalize c.files.createAll o.outDir = created at hCreate
      obtain ⟨made, fs⟩ := created
      cases made with
      | error e => exact Action.runOn_bind_error hCreate _
      | ok made =>
        have hSemaphore := Action.runOn_ofResult (makeSemaphore (o.permits host settings))
          { c with files := fs }
        refine (Action.runOn_bind_ok hCreate _).trans ?_
        cases hPermits : makeSemaphore (o.permits host settings) with
        | error failure =>
          rw [hPermits] at hSemaphore
          exact Action.runOn_bind_error hSemaphore _
        | ok permitted =>
          rw [hPermits] at hSemaphore
          exact Action.runOn_bind_ok hSemaphore _

variable {o} {host} {settings}

/-- The command comes to run these jobs on these files. -/
structure Prepared (o : BatchOptions) (host : Host) (settings : Settings) (before : FileSystem)
    (source : TemplateFile) (jobs : List Job) (fs : FileSystem) : Prop where
  source_eq : TemplateFile.read settings before o.template = .ok source
  jobs_eq : Batch.jobs o.outDir [] o.data = .ok jobs
  made : before.createAll o.outDir = (.ok (), fs)
  permitted : makeSemaphore (o.permits host settings) = .ok ()

section Prepared

variable {c : Console} {source : TemplateFile} {jobs : List Job} {fs : FileSystem}
  (h : o.Prepared host settings c.files source jobs fs)
include h

theorem Prepared.runOn_eq (execute : Executor) :
    (o.runWith host settings execute).runOn c =
      (execute (o.permits host settings) (.compile source.raw) jobs >>=
        o.conclude host settings source).runOn { c with files := fs } := by
  rw [runOn_runWith, h.source_eq, h.jobs_eq, h.made, h.permitted]

/-- When the jobs have been run, nothing more is written. -/
theorem Prepared.files_runWith (execute : Executor) :
    ((o.runWith host settings execute).runOn c).2.files =
      ((execute (o.permits host settings) (.compile source.raw) jobs).runOn
        { c with files := fs }).2.files := by
  rw [h.runOn_eq, Action.runOn_bind]
  generalize (execute _ _ jobs).runOn { c with files := fs } = run
  obtain ⟨results, c'⟩ := run
  cases results with
  | error failure => rfl
  | ok results => exact (o.prints_conclude host settings source results).files c'

section Unlinked

variable (hLinks : c.files.links = [])
include hLinks

theorem Prepared.links : fs.links = [] := by
  have hMade := congrArg (fun created => created.2.links) h.made
  exact hMade.symm.trans ((FileSystem.links_makeDirectories _ _ _).trans hLinks)

/-- The command ends as the results of the single jobs tell it to, with all documents delivered. -/
theorem Prepared.runOn_runWith {execute : Executor} (hExecute : execute.Delivers) :
    ∃ fs', (o.runWith host settings execute).runOn c =
        (o.conclude host settings source
          (jobs.map fun job => (perform (.compile source.raw) fs job).1)).runOn
            { c with files := fs' } ∧
      Delivered (.compile source.raw) o.outDir fs jobs fs' := by
  have hBatch := isBatch_of_jobs h.jobs_eq
  obtain ⟨fs', hRun, hDelivered⟩ := hExecute o.outDir (o.permits host settings)
    (.compile source.raw) jobs { c with files := fs } (o.permits_pos host settings)
    (h.links hLinks) hBatch
  refine ⟨fs', ?_, hDelivered⟩
  rw [h.runOn_eq]
  exact Action.runOn_bind_ok hRun _

theorem Prepared.rendered {execute : Executor} (hExecute : execute.Delivers) :
    Rendered o.outDir (.compile source.raw) fs jobs ((o.runWith host settings execute).runOn c).1
      ((o.runWith host settings execute).runOn c).2.files := by
  have hBatch := isBatch_of_jobs h.jobs_eq
  obtain ⟨fs', hRun, hDelivered⟩ := h.runOn_runWith hLinks hExecute
  have hFiles := (o.prints_conclude host settings source
    (jobs.map fun job => (perform (.compile source.raw) fs job).1)).files { c with files := fs' }
  rw [hRun, hFiles]
  refine hDelivered.rendered hBatch fun failure hCollect => ?_
  have hFirst : (Action.ofResult (Batch.collect
      (jobs.map fun job => (perform (.compile source.raw) fs job).1))).runOn
        { c with files := fs' } = (.error failure, { c with files := fs' }) := by
    rw [Action.runOn_ofResult, hCollect]
  rw [conclude, Action.runOn_bind_error hFirst]

end Unlinked
end Prepared

/-- Two runs have one result and one output, and leave the same files. -/
structure Agree (r r' : Except Failure Unit × Console) : Prop where
  result : r.1 = r'.1
  stdout : r.2.stdout = r'.2.stdout
  stderr : r.2.stderr = r'.2.stderr
  files : FileSystem.Same r.2.files r'.2.files

theorem agree_refl (r : Except Failure Unit × Console) : Agree r r :=
  ⟨rfl, rfl, rfl, rfl, fun _ => rfl, rfl⟩

/-- The outcome does not depend on how the jobs are run, if only their documents are delivered. -/
theorem agree_runWith (o : BatchOptions) (settings : Settings) {c : Console}
    (hLinks : c.files.links = []) {execute execute' : Executor} (h : execute.Delivers)
    (h' : execute'.Delivers) :
    Agree ((o.runWith host settings execute).runOn c)
      ((o.runWith host settings execute').runOn c) := by
  by_cases hPrepared : ∃ source jobs fs, o.Prepared host settings c.files source jobs fs
  · obtain ⟨source, jobs, fs, hPrepared⟩ := hPrepared
    obtain ⟨fs₁, hRun, hDelivered⟩ := hPrepared.runOn_runWith hLinks h
    obtain ⟨fs₂, hRun', hDelivered'⟩ := hPrepared.runOn_runWith hLinks h'
    have hPrints := o.prints_conclude host settings source
      (jobs.map fun job => (perform (.compile source.raw) fs job).1) c
    rw [hRun, hRun', hPrints fs₁, hPrints fs₂]
    exact ⟨rfl, rfl, rfl, hDelivered.same hDelivered'⟩
  · have hSame : (o.runWith host settings execute).runOn c =
        (o.runWith host settings execute').runOn c := by
      rw [runOn_runWith, runOn_runWith]
      split
      · rfl
      · rfl
      · rfl
      · rfl
      · next source jobs fs hSource hJobs hMade hPermits =>
        exact absurd ⟨source, jobs, fs, hSource, hJobs, hMade, hPermits⟩ hPrepared
    rw [hSame]
    exact agree_refl _

/-- With more permits than a semaphore can have, the command crashes when it has made the directory,
and no job is run. -/
theorem runOn_runWith_of_excess (execute : Executor) {c : Console} {source : TemplateFile}
    {jobs : List Job} {fs : FileSystem} (hPermits : maxPermits < o.permits host settings)
    (hSource : TemplateFile.read settings c.files o.template = .ok source)
    (hJobs : Batch.jobs o.outDir [] o.data = .ok jobs)
    (hMade : c.files.createAll o.outDir = (.ok (), fs)) :
    ∃ reason, (o.runWith host settings execute).runOn c =
      (.error (.crash reason), { c with files := fs }) := by
  rcases makeSemaphore_cases (o.permits host settings) with ⟨hFew, -⟩ | ⟨-, reason, hCrash⟩
  · exact absurd hPermits (Nat.not_lt.mpr hFew)
  · refine ⟨reason, ?_⟩
    rw [runOn_runWith, hSource, hJobs, hMade, hCrash]

section Letters

/-- The files for two letters, one of which has no data. -/
def letterFiles : FileSystem where
  entries := [(["letter.txt"], .file "Dear \x7bname\x7d".toUTF8),
    (["bo.json"], .file "\x7b\"name\": \"Bo\"\x7d".toUTF8), (["out"], .directory)]
  current := []
  links := []

def letters (data : List FilePath) : BatchOptions :=
  ⟨⟨"letter.txt"⟩, data, ⟨"out"⟩, some 0, false⟩

/-- The files for two letters with data, whose documents are names of one file. -/
def linkedFiles : FileSystem where
  entries := (["al.json"], .file "\x7b\"name\": \"Al\"\x7d".toUTF8) ::
    (["out", "al.out"], .file .empty) :: letterFiles.entries
  current := []
  links := [(["out", "bo.out"], ["out", "al.out"])]

end Letters

end BatchOptions
end DocTemplate
