import DocTemplate.Proofs.Command.Documents
import Mathlib.Algebra.BigOperators.Group.List.Basic
import Mathlib.Algebra.GroupWithZero.Nat

/-! Batches whose jobs run at once. As many jobs as there are permits are under way, and each takes
its steps - it gets a permit, loads and renders its data, and writes its document - in between the
steps of the others. Whatever the order of the steps, each job ends as it would alone, so the files
and the result of a batch are those of its jobs one after the other. -/

namespace DocTemplate

namespace Batch

open FileSystem

/-! ### Jobs under way -/

/-- How far a job has come. It holds its permit from when it is admitted until it has finished. -/
inductive Stage where
  | waiting
  | admitted
  | loaded (outcome : Outcome)
  | finished (result : Except Failure Item)

structure Task where
  job : Job
  stage : Stage

namespace Task

def holdsPermit (task : Task) : Bool :=
  match task.stage with
  | .admitted | .loaded _ => true
  | .waiting | .finished _ => false

def isFinished (task : Task) : Bool :=
  match task.stage with
  | .finished _ => true
  | .waiting | .admitted | .loaded _ => false

def result? (task : Task) : Option (Except Failure Item) :=
  match task.stage with
  | .finished result => some result
  | .waiting | .admitted | .loaded _ => none

/-- The number of steps that a task has before it at most. -/
def remaining (task : Task) : Nat :=
  match task.stage with
  | .waiting => 3
  | .admitted => 2
  | .loaded _ => 1
  | .finished _ => 0

/-- The next step of a task. A job that waits stays as it is if there is no permit for it, and a job
whose data cannot be loaded ends there. -/
def advance (t : Template) (permit : Bool) (fs : FileSystem) (task : Task) : Task × FileSystem :=
  match task.stage with
  | .waiting => if permit then ({ task with stage := .admitted }, fs) else (task, fs)
  | .admitted =>
    match document t task.job fs with
    | .ok outcome => ({ task with stage := .loaded outcome }, fs)
    | .error failure => ({ task with stage := .finished (.error failure) }, fs)
  | .loaded outcome =>
    let (result, fs) := deliver task.job outcome fs
    ({ task with stage := .finished result }, fs)
  | .finished _ => (task, fs)

/-- Whether a task has a next step. -/
def canAdvance (permit : Bool) (task : Task) : Bool :=
  match task.stage with
  | .waiting => permit
  | .admitted | .loaded _ => true
  | .finished _ => false

end Task

/-- The tasks of a batch in the order of its jobs, and the files as they are now. -/
structure Pool where
  files : FileSystem
  tasks : List Task

namespace Pool

def start (jobs : List Job) (fs : FileSystem) : Pool := ⟨fs, jobs.map fun job => ⟨job, .waiting⟩⟩

/-- The number of permits in use. -/
def running (pool : Pool) : Nat := pool.tasks.countP Task.holdsPermit

def hasPermit (permits : Nat) (pool : Pool) : Bool := pool.running < permits

/-- Lets the task at an index take its next step. -/
def advance (t : Template) (permits : Nat) (pool : Pool) (index : Nat) : Pool :=
  match pool.tasks[index]? with
  | none => pool
  | some task =>
    let (task, files) := task.advance t (pool.hasPermit permits) pool.files
    ⟨files, pool.tasks.set index task⟩

/-- Lets the tasks take steps in the order of a schedule. -/
def run (t : Template) (permits : Nat) (pool : Pool) (schedule : List Nat) : Pool :=
  schedule.foldl (advance t permits) pool

def IsFinished (pool : Pool) : Prop := ∀ task ∈ pool.tasks, task.isFinished = true

/-- The results so far in the order of the jobs. -/
def results (pool : Pool) : List (Except Failure Item) := pool.tasks.filterMap Task.result?

/-- The jobs that have finished. -/
def done (pool : Pool) : List Job := (pool.tasks.filter Task.isFinished).map Task.job

def remaining (pool : Pool) : Nat := (pool.tasks.map Task.remaining).sum

end Pool

/-! ### What one step does -/

/-- The steps of a task. -/
inductive Task.Rule (t : Template) (fs : FileSystem) : Task → Task × FileSystem → Prop
  | idle (task : Task) : Rule t fs task (task, fs)
  | grant (job : Job) : Rule t fs ⟨job, .waiting⟩ (⟨job, .admitted⟩, fs)
  | load (job : Job) (outcome : Outcome) (made : document t job fs = .ok outcome) :
    Rule t fs ⟨job, .admitted⟩ (⟨job, .loaded outcome⟩, fs)
  | fail (job : Job) (failure : Failure) (unmade : document t job fs = .error failure) :
    Rule t fs ⟨job, .admitted⟩ (⟨job, .finished (.error failure)⟩, fs)
  | write (job : Job) (outcome : Outcome) :
    Rule t fs ⟨job, .loaded outcome⟩
      (⟨job, .finished (deliver job outcome fs).1⟩, (deliver job outcome fs).2)

theorem Task.rule_advance (t : Template) (permit : Bool) (fs : FileSystem) (task : Task) :
    Rule t fs task (task.advance t permit fs) := by
  obtain ⟨job, stage⟩ := task
  cases stage with
  | waiting =>
    cases permit with
    | false => exact .idle _
    | true => exact .grant job
  | admitted =>
    rw [advance]
    dsimp only
    cases hDocument : document t job fs with
    | ok outcome => exact .load job outcome hDocument
    | error failure => exact .fail job failure hDocument
  | loaded outcome => exact .write job outcome
  | finished result => exact .idle _

theorem Pool.advance_cases (t : Template) (permits : Nat) (pool : Pool) (index : Nat) :
    pool.advance t permits index = pool ∨
      ∃ before task after result, pool.tasks = before ++ task :: after ∧
        Task.Rule t pool.files task result ∧
        pool.advance t permits index = ⟨result.2, before ++ result.1 :: after⟩ := by
  rw [advance]
  cases hTask : pool.tasks[index]? with
  | none => exact .inl rfl
  | some task =>
    obtain ⟨hIndex, hHere⟩ := List.getElem?_eq_some_iff.mp hTask
    have hSplit : pool.tasks = pool.tasks.take index ++ task :: pool.tasks.drop (index + 1) := by
      rw [← hHere, List.getElem_cons_drop, List.take_append_drop]
    refine .inr ⟨_, task, _, _, hSplit, task.rule_advance t (pool.hasPermit permits) pool.files, ?_⟩
    dsimp only
    rw [List.set_eq_take_append_cons_drop, if_pos hIndex]

/-! ### Every job ends as it would alone -/

/-- The task is on its way to the result that its job has in the files `base`. -/
def Task.Fits (t : Template) (base : FileSystem) (task : Task) : Prop :=
  match task.stage with
  | .waiting | .admitted => True
  | .loaded outcome => document t task.job base = .ok outcome
  | .finished result => result = (perform t base task.job).1

/-- The pool has come from the files `base` by steps of its tasks. -/
structure Pool.Sound (t : Template) (outDir : FilePath) (base : FileSystem) (jobs : List Job)
    (pool : Pool) : Prop where
  jobs_eq : pool.tasks.map Task.job = jobs
  fits : ∀ task ∈ pool.tasks, task.Fits t base
  delivered : Delivered t outDir base pool.done pool.files

variable {t : Template} {outDir : FilePath} {base : FileSystem} {jobs : List Job} {pool : Pool}

theorem Pool.sound_start (t : Template) (outDir : FilePath) (jobs : List Job) {fs : FileSystem}
    (h : fs.links = []) : (start jobs fs).Sound t outDir fs jobs where
  jobs_eq := by simp [start, Function.comp_def]
  fits task hTask := by
    obtain ⟨job, -, rfl⟩ := List.mem_map.mp hTask
    trivial
  delivered := by
    have hDone : (start jobs fs).done = [] := by
      rw [done, start, List.filter_eq_nil_iff.mpr, List.map_nil]
      intro task hTask
      obtain ⟨job, -, rfl⟩ := List.mem_map.mp hTask
      exact Bool.false_ne_true
    rw [hDone]
    exact delivered_nil t outDir h

theorem Pool.done_mem (h : pool.Sound t outDir base jobs) : ∀ job ∈ pool.done, job ∈ jobs := by
  intro job hJob
  obtain ⟨task, hTask, rfl⟩ := List.mem_map.mp hJob
  rw [← h.jobs_eq]
  exact List.mem_map_of_mem (List.mem_of_mem_filter hTask)

/-- The jobs that are done when one task of the pool has become another. -/
theorem Pool.mem_done_append (files : FileSystem) (before after : List Task) (task : Task)
    (job : Job) :
    job ∈ (Pool.mk files (before ++ task :: after)).done ↔
      (task.isFinished = true ∧ job = task.job) ∨
        job ∈ (Pool.mk files (before ++ after)).done := by
  simp only [done, List.mem_map, List.mem_filter, List.mem_append, List.mem_cons]
  constructor
  · rintro ⟨other, ⟨hMem | rfl | hMem, hFinished⟩, rfl⟩
    · exact .inr ⟨other, ⟨.inl hMem, hFinished⟩, rfl⟩
    · exact .inl ⟨hFinished, rfl⟩
    · exact .inr ⟨other, ⟨.inr hMem, hFinished⟩, rfl⟩
  · rintro (⟨hFinished, rfl⟩ | ⟨other, ⟨hMem | hMem, hFinished⟩, rfl⟩)
    · exact ⟨task, ⟨.inr (.inl rfl), hFinished⟩, rfl⟩
    · exact ⟨other, ⟨.inl hMem, hFinished⟩, rfl⟩
    · exact ⟨other, ⟨.inr (.inr hMem), hFinished⟩, rfl⟩

section Step

variable {files files' : FileSystem} {before after : List Task} {task task' : Task}

theorem Pool.Sound.replace (h : (Pool.mk files (before ++ task :: after)).Sound t outDir base jobs)
    (hJob : task'.job = task.job) (hFits : task'.Fits t base)
    (hDelivered : Delivered t outDir base (Pool.mk files' (before ++ task' :: after)).done files') :
    (Pool.mk files' (before ++ task' :: after)).Sound t outDir base jobs where
  jobs_eq := by
    rw [← h.jobs_eq, List.map_append, List.map_append, List.map_cons, List.map_cons, hJob]
  fits other hOther := by
    rcases List.mem_append.mp hOther with hBefore | hRest
    · exact h.fits other (List.mem_append_left _ hBefore)
    · rcases List.mem_cons.mp hRest with rfl | hAfter
      · exact hFits
      · exact h.fits other (List.mem_append_right _ (List.mem_cons_of_mem task hAfter))
  delivered := hDelivered

theorem Pool.delivered_of_going
    (h : Delivered t outDir base (Pool.mk files (before ++ task :: after)).done files)
    (hTask : task.isFinished = false) (hTask' : task'.isFinished = false) :
    Delivered t outDir base (Pool.mk files (before ++ task' :: after)).done files :=
  h.congr fun job => by simp [mem_done_append, hTask, hTask']

theorem Pool.delivered_of_finished
    (h : Delivered t outDir base
      (task.job :: (Pool.mk files (before ++ task :: after)).done) files')
    (hTask : task.isFinished = false) (hTask' : task'.isFinished = true)
    (hJob : task'.job = task.job) :
    Delivered t outDir base (Pool.mk files' (before ++ task' :: after)).done files' := by
  refine h.congr fun job => ?_
  rw [List.mem_cons, mem_done_append, mem_done_append, hTask, hTask', hJob]
  simp [done]

end Step

theorem Pool.Sound.advance (hBatch : IsBatch outDir jobs) (h : pool.Sound t outDir base jobs)
    (permits index : Nat) : (pool.advance t permits index).Sound t outDir base jobs := by
  rcases pool.advance_cases t permits index with
    hSame | ⟨before, task, after, result, hTasks, hRule, hNext⟩
  · rwa [hSame]
  · obtain ⟨files, tasks⟩ := pool
    obtain rfl : tasks = before ++ task :: after := hTasks
    have hTask : task ∈ before ++ task :: after := by simp
    have hFits := h.fits task hTask
    rw [hNext]
    cases hRule with
    | idle => exact h
    | grant job => exact h.replace rfl trivial (delivered_of_going h.delivered rfl rfl)
    | load job outcome made =>
      rw [h.delivered.document] at made
      exact h.replace rfl made (delivered_of_going h.delivered rfl rfl)
    | fail job failure unmade =>
      rw [h.delivered.document] at unmade
      have hResult : .error failure = (perform t base job).1 := by rw [perform, unmade]
      exact h.replace rfl hResult
        (delivered_of_finished (h.delivered.skip unmade) rfl rfl rfl)
    | write job outcome =>
      have hJob : job ∈ jobs := h.jobs_eq ▸ List.mem_map_of_mem hTask
      obtain ⟨hResult, hNow⟩ := h.delivered.deliver hBatch (done_mem h) hJob hFits
      have hGoing : Task.isFinished ⟨job, .loaded outcome⟩ = false := rfl
      exact h.replace rfl hResult (delivered_of_finished hNow hGoing rfl rfl)

theorem Pool.Sound.run (hBatch : IsBatch outDir jobs) (h : pool.Sound t outDir base jobs)
    (permits : Nat) (schedule : List Nat) :
    (pool.run t permits schedule).Sound t outDir base jobs := by
  induction schedule generalizing pool with
  | nil => exact h
  | cons index schedule ih => exact ih (h.advance hBatch permits index)

theorem filterMap_result {tasks : List Task} (hFinished : ∀ task ∈ tasks, task.isFinished = true)
    (hFits : ∀ task ∈ tasks, task.Fits t base) :
    tasks.filterMap Task.result? =
      (tasks.map Task.job).map fun job => (perform t base job).1 := by
  induction tasks with
  | nil => rfl
  | cons task tasks ih =>
    obtain ⟨hHere, hRest⟩ := List.forall_mem_cons.mp hFinished
    obtain ⟨hFitsHere, hFitsRest⟩ := List.forall_mem_cons.mp hFits
    obtain ⟨job, stage⟩ := task
    cases stage with
    | waiting | admitted | loaded => contradiction
    | finished result =>
      obtain rfl : result = (perform t base job).1 := hFitsHere
      rw [List.filterMap_cons, ih hRest hFitsRest]
      rfl

/-- When all tasks have finished, the results are those of the jobs alone, and all documents have
been delivered. -/
theorem Pool.Sound.finished (h : pool.Sound t outDir base jobs) (hFinished : pool.IsFinished) :
    pool.results = jobs.map (fun job => (perform t base job).1) ∧
      Delivered t outDir base jobs pool.files := by
  refine ⟨?_, ?_⟩
  · rw [results, filterMap_result hFinished h.fits, h.jobs_eq]
  · have hDone : pool.done = jobs := by
      rw [done, List.filter_eq_self.mpr hFinished, h.jobs_eq]
    exact hDone ▸ h.delivered

/-! ### Every pool can finish -/

/-- The indices of the tasks that have a next step. -/
def Pool.ready (permits : Nat) (pool : Pool) : List Nat :=
  pool.tasks.findIdxs (Task.canAdvance (pool.hasPermit permits))

/-- Steps of the last task in the list that has one, `fuel` of them at most. -/
def Pool.lastFirst (t : Template) (permits : Nat) : Nat → Pool → List Nat
  | 0, _ => []
  | fuel + 1, pool =>
    match (pool.ready permits).getLast? with
    | none => []
    | some index => index :: lastFirst t permits fuel (pool.advance t permits index)

theorem Task.remaining_advance {task : Task} {permit : Bool}
    (h : task.canAdvance permit = true) (t : Template) (fs : FileSystem) :
    (task.advance t permit fs).1.remaining < task.remaining := by
  obtain ⟨job, stage⟩ := task
  cases stage with
  | waiting =>
    obtain rfl : permit = true := h
    exact Nat.lt_succ_self 2
  | admitted =>
    rw [advance]
    dsimp only
    cases document t job fs with
    | ok outcome => exact Nat.lt_succ_self 1
    | error failure => exact Nat.zero_lt_two
  | loaded outcome => exact Nat.zero_lt_one
  | finished result => contradiction

theorem Pool.remaining_advance (t : Template) {permits index : Nat}
    (h : index ∈ pool.ready permits) :
    (pool.advance t permits index).remaining < pool.remaining := by
  obtain ⟨hIndex, hMove⟩ := List.mem_findIdxs_iff_exists_getElem_pos.mp h
  have hTask : pool.tasks[index]? = some pool.tasks[index] := List.getElem?_eq_getElem hIndex
  have hStep := Task.remaining_advance hMove t pool.files
  have hBefore : pool.remaining =
      ((pool.tasks.map Task.remaining).set index pool.tasks[index].remaining).sum := by
    have hSelf : pool.tasks.set index pool.tasks[index] = pool.tasks :=
      List.set_getElem_self hIndex
    rw [← List.map_set, hSelf, remaining]
  rw [hBefore, advance, hTask, remaining]
  dsimp only
  rw [List.map_set, List.sum_set, List.sum_set, List.length_map, if_pos hIndex, if_pos hIndex]
  omega

theorem Pool.isFinished_of_ready {permits : Nat} (hPermits : 0 < permits)
    (h : pool.ready permits = []) : pool.IsFinished := by
  have hStuck := List.findIdxs_eq_nil_iff.mp h
  have hIdle : ∀ task ∈ pool.tasks, task.holdsPermit = false := by
    intro task hTask
    have hTaskStuck := hStuck task hTask
    obtain ⟨job, stage⟩ := task
    cases stage with
    | waiting | finished => rfl
    | admitted | loaded => contradiction
  -- No task holds a permit, so there is one for whoever waits.
  have hFree : pool.hasPermit permits = true := by
    have hRunning : pool.running = 0 :=
      List.countP_eq_zero.mpr fun task hTask => by simp [hIdle task hTask]
    simpa [hasPermit, hRunning] using hPermits
  intro task hTask
  have hTaskStuck := hStuck task hTask
  rw [hFree] at hTaskStuck
  obtain ⟨job, stage⟩ := task
  cases stage with
  | finished => rfl
  | waiting | admitted | loaded => contradiction

/-- A pool with a permit can always go on until all its tasks have finished. -/
theorem Pool.isFinished_lastFirst (t : Template) {permits : Nat} (hPermits : 0 < permits)
    {fuel : Nat} (hFuel : pool.remaining ≤ fuel) :
    (pool.run t permits (pool.lastFirst t permits fuel)).IsFinished := by
  induction fuel generalizing pool with
  | zero =>
    show pool.IsFinished
    refine isFinished_of_ready hPermits (List.eq_nil_iff_forall_not_mem.mpr fun index hIndex => ?_)
    have hLess := remaining_advance t hIndex
    omega
  | succ fuel ih =>
    rw [lastFirst]
    cases hLast : (pool.ready permits).getLast? with
    | none => exact isFinished_of_ready hPermits (List.getLast?_eq_none_iff.mp hLast)
    | some index =>
      have hLess := remaining_advance t (List.mem_of_getLast? hLast)
      have hFuelLeft : (pool.advance t permits index).remaining ≤ fuel := by omega
      exact ih hFuelLeft

end Batch
end DocTemplate
