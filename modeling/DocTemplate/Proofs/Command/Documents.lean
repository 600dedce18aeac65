import DocTemplate.Command.Batch
import DocTemplate.Proofs.Command.Run
import DocTemplate.Proofs.Files.Overlay
import Mathlib.Data.List.Nodup

/-! The documents of a batch. The jobs of a batch have different documents, and what a job does is
the same whatever other jobs have been done before it: its document goes to a place of its own, and
no document is a data file. -/

namespace DocTemplate

namespace FileSystem

/-- The place of a file of a directory when it can be written there. -/
def site (fs : FileSystem) (dir : FilePath) (name : String) : Except SystemError Place :=
  match fs.inside dir with
  | .error e => .error e
  | .ok place =>
    if fs.entry? (place ++ [name]) = some .directory then .error .isDirectory
    else .ok (place ++ [name])

theorem write_eq_site (fs : FileSystem) (dir : FilePath) {name : String}
    (h : FilePath.IsFileName name) (content : ByteArray) :
    fs.write (dir.join ⟨name⟩) content =
      (fs.site dir name).map fun place => fs.set place (.file content) := by
  rw [write_join fs dir h, site]
  cases fs.inside dir with
  | error e => rfl
  | ok place =>
    dsimp only
    split <;> rfl

theorem site_eq_ok {fs : FileSystem} {dir : FilePath} {name : String} {place : Place}
    (h : fs.site dir name = .ok place) :
    ∃ around, fs.inside dir = .ok around ∧ place = around ++ [name] ∧
      fs.entry? place ≠ some .directory := by
  rw [site] at h
  cases hInside : fs.inside dir with
  | error e =>
    rw [hInside] at h
    contradiction
  | ok around =>
    rw [hInside] at h
    dsimp only at h
    split at h
    · contradiction
    · next hEntry =>
      cases h
      exact ⟨around, rfl, rfl, hEntry⟩

theorem Same.inside {fs fs' : FileSystem} (h : Same fs fs') (dir : FilePath) :
    fs.inside dir = fs'.inside dir := by
  have hEnter : ∀ place parts, fs.enter place parts = fs'.enter place parts := by
    intro place parts
    induction parts generalizing place with
    | nil => simp only [enter, blocked, h.entries]
    | cons part parts ih => simp only [enter, blocked, h.entries, ih]
  rw [FileSystem.inside, FileSystem.inside, h.current, hEnter]

end FileSystem

namespace Batch

open FileSystem

/-! ### The jobs of a batch -/

/-- The name of the document of a job. -/
def Job.name (job : Job) : String := job.data.stem?.getD "" ++ ".out"

/-- Jobs for data files with different names, whose documents go into one directory. -/
structure IsBatch (outDir : FilePath) (jobs : List Job) : Prop where
  named : ∀ job ∈ jobs, job.data.stem? ≠ none
  output : ∀ job ∈ jobs, job.output = outDir.join ⟨job.name⟩
  apart : (jobs.map fun job => job.data.stem?).Nodup

theorem jobs_cons {outDir data : FilePath} {taken : List String} {rest : List FilePath}
    {js : List Job} :
    jobs outDir taken (data :: rest) = .ok js ↔
      ∃ stem others, data.stem? = some stem ∧ stem ∉ taken ∧
        jobs outDir (stem :: taken) rest = .ok others ∧
        js = ⟨data, outDir.join ⟨stem ++ ".out"⟩⟩ :: others := by
  rw [jobs]
  cases data.stem? with
  | none => simp
  | some stem =>
    by_cases hTaken : stem ∈ taken
    · simp [hTaken]
    · cases hRest : jobs outDir (stem :: taken) rest with
      | error failure => simp [hTaken, hRest, bind, Except.bind]
      | ok others => simp [hTaken, hRest, bind, Except.bind, pure, Except.pure, eq_comm]

theorem data_of_jobs {outDir : FilePath} {taken : List String} {data : List FilePath}
    {js : List Job} (h : jobs outDir taken data = .ok js) : js.map Job.data = data := by
  induction data generalizing taken js with
  | nil =>
    cases h
    rfl
  | cons p data ih =>
    obtain ⟨stem, others, -, -, hRest, rfl⟩ := jobs_cons.mp h
    rw [List.map_cons, ih hRest]

theorem output_of_jobs {outDir : FilePath} {taken : List String} {data : List FilePath}
    {js : List Job} (h : jobs outDir taken data = .ok js) :
    ∀ job ∈ js, job.output = outDir.join ⟨job.name⟩ := by
  induction data generalizing taken js with
  | nil =>
    cases h
    simp
  | cons p data ih =>
    obtain ⟨stem, others, hStem, -, hRest, rfl⟩ := jobs_cons.mp h
    exact List.forall_mem_cons.mpr ⟨by simp [Job.name, hStem], ih hRest⟩

/-- The jobs of a list exist exactly if every path has a file name and no two names agree up to
their extensions. -/
theorem exists_jobs_iff {outDir : FilePath} {taken : List String} {data : List FilePath} :
    (∃ js, jobs outDir taken data = .ok js) ↔
      (∀ p ∈ data, p.stem? ≠ none) ∧ (data.map FilePath.stem?).Nodup ∧
        ∀ stem ∈ taken, ∀ p ∈ data, p.stem? ≠ some stem := by
  induction data generalizing taken with
  | nil => simp [jobs]
  | cons p data ih =>
    constructor
    · rintro ⟨js, hJobs⟩
      obtain ⟨stem, others, hStem, hNew, hRest, -⟩ := jobs_cons.mp hJobs
      obtain ⟨hNamed, hApart, hTaken⟩ := ih.mp ⟨others, hRest⟩
      refine ⟨List.forall_mem_cons.mpr ⟨by simp [hStem], hNamed⟩, ?_, fun other hOther => ?_⟩
      · refine List.nodup_cons.mpr ⟨fun hMem => ?_, hApart⟩
        obtain ⟨q, hq, hSame⟩ := List.mem_map.mp hMem
        exact hTaken stem List.mem_cons_self q hq (hSame.trans hStem)
      · refine List.forall_mem_cons.mpr ⟨fun hSame => ?_, fun q hq => ?_⟩
        · rw [hStem] at hSame
          exact hNew (Option.some.inj hSame ▸ hOther)
        · exact hTaken other (List.mem_cons_of_mem stem hOther) q hq
    · rintro ⟨hNamed, hApart, hTaken⟩
      obtain ⟨hHere, hNamed⟩ := List.forall_mem_cons.mp hNamed
      obtain ⟨hOnly, hApart⟩ := List.nodup_cons.mp hApart
      obtain ⟨stem, hStem⟩ := Option.ne_none_iff_exists'.mp hHere
      have hNew : stem ∉ taken := fun hMem => hTaken stem hMem p List.mem_cons_self hStem
      have hRest : ∀ other ∈ stem :: taken, ∀ q ∈ data, q.stem? ≠ some other := by
        refine List.forall_mem_cons.mpr ⟨fun q hq hSame => hOnly ?_, fun other hOther q hq => ?_⟩
        · exact List.mem_map.mpr ⟨q, hq, hSame.trans hStem.symm⟩
        · exact hTaken other hOther q (List.mem_cons_of_mem p hq)
      obtain ⟨others, hOthers⟩ := ih.mpr ⟨hNamed, hApart, hRest⟩
      exact ⟨_, jobs_cons.mpr ⟨stem, others, hStem, hNew, hOthers, rfl⟩⟩

theorem isBatch_of_jobs {outDir : FilePath} {data : List FilePath} {js : List Job}
    (h : jobs outDir [] data = .ok js) : IsBatch outDir js := by
  obtain ⟨hNamed, hApart, -⟩ := exists_jobs_iff.mp ⟨js, h⟩
  rw [← data_of_jobs h] at hNamed hApart
  refine ⟨fun job hJob => hNamed job.data (List.mem_map_of_mem hJob), output_of_jobs h, ?_⟩
  rwa [List.map_map] at hApart

section Batch

variable {outDir : FilePath} {jobs : List Job} (hBatch : IsBatch outDir jobs)
include hBatch

theorem IsBatch.isFileName {job : Job} (h : job ∈ jobs) : FilePath.IsFileName job.name := by
  obtain ⟨stem, hStem⟩ := Option.ne_none_iff_exists'.mp (hBatch.named job h)
  have hName : job.name = stem ++ ".out" := by rw [Job.name, hStem]; rfl
  rw [hName]
  exact FilePath.isFileName_out hStem

theorem IsBatch.eq_of_name {job other : Job} (h : job ∈ jobs) (hOther : other ∈ jobs)
    (hName : job.name = other.name) : job = other := by
  refine List.inj_on_of_nodup_map hBatch.apart h hOther ?_
  obtain ⟨stem, hStem⟩ := Option.ne_none_iff_exists'.mp (hBatch.named job h)
  obtain ⟨stem', hStem'⟩ := Option.ne_none_iff_exists'.mp (hBatch.named other hOther)
  rw [Job.name, Job.name, hStem, hStem', Option.getD_some, Option.getD_some] at hName
  rw [hStem, hStem', (String.append_left_inj ".out").mp hName]

theorem IsBatch.nodup_outputs : (jobs.map Job.output).Nodup := by
  have hJobs : jobs.Nodup := hBatch.apart.of_map _
  refine (List.nodup_map_iff_inj_on hJobs).mpr fun job hJob other hOther hSame => ?_
  rw [hBatch.output job hJob, hBatch.output other hOther] at hSame
  refine hBatch.eq_of_name hJob hOther ?_
  have hParts := congrArg FilePath.parts hSame
  rw [FilePath.parts_join outDir (hBatch.isFileName hJob),
    FilePath.parts_join outDir (hBatch.isFileName hOther)] at hParts
  simpa using hParts

end Batch

/-! ### One job -/

/-- Writes the document of a job. -/
def deliver (job : Job) (outcome : Outcome) (fs : FileSystem) : Except Failure Item × FileSystem :=
  match fs.write job.output outcome.output.toUTF8 with
  | .ok fs => (.ok ⟨job, outcome.diagnostics⟩, fs)
  | .error e => (.error (.cause ["Failed to write " ++ job.output.text] (.system e)), fs)

/-- The result of a job, and the files after it. -/
def perform (t : Template) (fs : FileSystem) (job : Job) : Except Failure Item × FileSystem :=
  match document t job fs with
  | .ok outcome => deliver job outcome fs
  | .error failure => (.error failure, fs)

theorem runOn_runJob (t : Template) (job : Job) (c : Console) :
    (runJob t job).runOn c =
      ((perform t c.files job).1, { c with files := (perform t c.files job).2 }) := by
  rw [perform]
  cases hDocument : document t job c.files with
  | error failure =>
    have hStep : (Action.fromFiles (document t job)).runOn c = (.error failure, c) := by
      rw [Action.runOn_fromFiles, hDocument]
    exact Action.runOn_bind_error hStep _
  | ok outcome =>
    have hStep : (Action.fromFiles (document t job)).runOn c = (.ok outcome, c) := by
      rw [Action.runOn_fromFiles, hDocument]
    refine (Action.runOn_bind_ok hStep _).trans ?_
    rw [Action.runOn_bind, Action.writeFile, Action.runOn_changeFiles]
    dsimp only
    rw [deliver]
    cases c.files.write job.output outcome.output.toUTF8 <;> rfl

/-! ### Jobs among others -/

/-- Where a job puts its document, if it has one and can put it there. -/
def put? (t : Template) (outDir : FilePath) (fs : FileSystem) (job : Job) :
    Option (Place × ByteArray) :=
  match document t job fs, fs.site outDir job.name with
  | .ok outcome, .ok place => some (place, outcome.output.toUTF8)
  | _, _ => none

/-- Places with the name of a document. -/
def IsDocument (place : Place) : Prop := ∃ stem, place.getLast? = some (stem ++ ".out")

theorem put?_eq_some {t : Template} {outDir : FilePath} {fs : FileSystem} {job : Job}
    {place : Place} {content : ByteArray} (h : put? t outDir fs job = some (place, content)) :
    ∃ outcome, document t job fs = .ok outcome ∧ fs.site outDir job.name = .ok place ∧
      content = outcome.output.toUTF8 := by
  rw [put?] at h
  cases hDocument : document t job fs with
  | error failure => simp [hDocument] at h
  | ok outcome =>
    cases hSite : fs.site outDir job.name with
    | error e => simp [hDocument, hSite] at h
    | ok there =>
      simp only [hDocument, hSite, Option.some.injEq, Prod.mk.injEq] at h
      exact ⟨outcome, rfl, by rw [h.1], h.2.symm⟩

/-- The files `fs` are the files `base`, none of which has further names, and the documents of the
jobs in `done`. -/
structure Delivered (t : Template) (outDir : FilePath) (base : FileSystem) (done : List Job)
    (fs : FileSystem) : Prop where
  current : fs.current = base.current
  links : fs.links = base.links
  unlinked : base.links = []
  put : ∀ job ∈ done, ∀ place content, put? t outDir base job = some (place, content) →
    fs.entry? place = some (.file content)
  kept : ∀ place, (∀ job ∈ done, ∀ content, put? t outDir base job ≠ some (place, content)) →
    fs.entry? place = base.entry? place

variable {t : Template} {outDir : FilePath} {base fs : FileSystem} {jobs done : List Job}

theorem delivered_nil (t : Template) (outDir : FilePath) (h : base.links = []) :
    Delivered t outDir base [] base where
  current := rfl
  links := rfl
  unlinked := h
  put := by simp
  kept _ _ := rfl

theorem Delivered.congr (h : Delivered t outDir base done fs) {done' : List Job}
    (hDone : ∀ job, job ∈ done' ↔ job ∈ done) : Delivered t outDir base done' fs where
  current := h.current
  links := h.links
  unlinked := h.unlinked
  put job hJob := h.put job ((hDone job).mp hJob)
  kept place hNone := h.kept place fun job hJob => hNone job ((hDone job).mpr hJob)

/-- All files with the same documents are the same. -/
theorem Delivered.same (h : Delivered t outDir base done fs) {fs' : FileSystem}
    (h' : Delivered t outDir base done fs') : Same fs fs' where
  current := h.current.trans h'.current.symm
  links := h.links.trans h'.links.symm
  entries place := by
    by_cases hPut : ∃ job ∈ done, ∃ content, put? t outDir base job = some (place, content)
    · obtain ⟨job, hJob, content, hHere⟩ := hPut
      rw [h.put job hJob place content hHere, h'.put job hJob place content hHere]
    · have hNone : ∀ job ∈ done, ∀ content, put? t outDir base job ≠ some (place, content) :=
        fun job hJob content hHere => hPut ⟨job, hJob, content, hHere⟩
      rw [h.kept place hNone, h'.kept place hNone]

theorem Delivered.overlay (h : Delivered t outDir base done fs) : Overlay IsDocument base fs where
  current := h.current
  links := h.links
  entries place := by
    rw [home_of_unlinked h.unlinked]
    by_cases hPut : ∃ job ∈ done, ∃ content, put? t outDir base job = some (place, content)
    · obtain ⟨job, hJob, content, hHere⟩ := hPut
      obtain ⟨outcome, -, hSite, -⟩ := put?_eq_some hHere
      obtain ⟨around, -, rfl, hEntry⟩ := site_eq_ok hSite
      exact .inr ⟨⟨_, List.getLast?_concat⟩, hEntry, content, h.put job hJob _ content hHere⟩
    · exact .inl (h.kept place fun job hJob content hHere => hPut ⟨job, hJob, content, hHere⟩)

/-- If the directory cannot be entered, no document has been put anywhere. -/
theorem Delivered.inside (h : Delivered t outDir base done fs) :
    fs.inside outDir = base.inside outDir := by
  cases hInside : base.inside outDir with
  | ok place => exact h.overlay.inside hInside
  | error e =>
    have hNone : ∀ job content place, put? t outDir base job ≠ some (place, content) := by
      intro job content place hHere
      obtain ⟨outcome, -, hSite, -⟩ := put?_eq_some hHere
      obtain ⟨around, hOk, -⟩ := site_eq_ok hSite
      rw [hInside] at hOk
      contradiction
    have hSame : Same fs base := ⟨h.current, fun place => h.kept place fun job _ content =>
      hNone job content place, h.links⟩
    rw [hSame.inside, hInside]

theorem Delivered.site (h : Delivered t outDir base done fs) (name : String) :
    fs.site outDir name = base.site outDir name := by
  rw [FileSystem.site, FileSystem.site, h.inside]
  cases base.inside outDir with
  | error e => rfl
  | ok place => simp only [h.overlay.directory_iff]

theorem Delivered.document (h : Delivered t outDir base done fs) (job : Job) :
    document t job fs = document t job base := by
  have hPlaces : ∀ place, IsDocument (base.home place) → IsDocument place := fun place hPlace => by
    rwa [home_of_unlinked h.unlinked] at hPlace
  rw [Batch.document, Batch.document, DataFile.load_overlay h.overlay hPlaces]

/-- A job that puts its document nowhere changes nothing. -/
theorem Delivered.cons_none (h : Delivered t outDir base done fs) {job : Job}
    (hNone : put? t outDir base job = none) : Delivered t outDir base (job :: done) fs where
  current := h.current
  links := h.links
  unlinked := h.unlinked
  put := List.forall_mem_cons.mpr ⟨by simp [hNone], h.put⟩
  kept place hApart := h.kept place (List.forall_mem_cons.mp hApart).2

theorem Delivered.skip (h : Delivered t outDir base done fs) {job : Job} {failure : Failure}
    (hDocument : Batch.document t job base = .error failure) :
    Delivered t outDir base (job :: done) fs :=
  h.cons_none (by rw [put?, hDocument])

section Batch

variable (hBatch : IsBatch outDir jobs)
include hBatch

theorem IsBatch.deliver_eq {job : Job} (hJob : job ∈ jobs) (outcome : Outcome)
    (fs : FileSystem) :
    deliver job outcome fs =
      match fs.site outDir job.name with
      | .ok place =>
        (.ok ⟨job, outcome.diagnostics⟩, fs.set place (.file outcome.output.toUTF8))
      | .error e => (.error (.cause ["Failed to write " ++ job.output.text] (.system e)), fs) := by
  have hWrite := write_eq_site fs outDir (hBatch.isFileName hJob) outcome.output.toUTF8
  rw [← hBatch.output job hJob] at hWrite
  rw [deliver, hWrite]
  cases fs.site outDir job.name <;> rfl

/-- Two jobs with their documents at one place are one job. -/
theorem IsBatch.eq_of_put {job other : Job} (hJob : job ∈ jobs) (hOther : other ∈ jobs)
    {place : Place} {content content' : ByteArray}
    (hHere : put? t outDir base job = some (place, content))
    (hThere : put? t outDir base other = some (place, content')) : job = other := by
  obtain ⟨-, -, hSite, -⟩ := put?_eq_some hHere
  obtain ⟨-, -, hOtherSite, -⟩ := put?_eq_some hThere
  obtain ⟨around, -, hPlace, -⟩ := site_eq_ok hSite
  obtain ⟨around', -, hPlace', -⟩ := site_eq_ok hOtherSite
  have hLast := congrArg List.getLast? (hPlace.symm.trans hPlace')
  exact hBatch.eq_of_name hJob hOther (by simpa using hLast)

theorem Delivered.cons_some (h : Delivered t outDir base done fs)
    (hDone : ∀ other ∈ done, other ∈ jobs) {job : Job} (hJob : job ∈ jobs) {place : Place}
    {content : ByteArray} (hHere : put? t outDir base job = some (place, content)) :
    Delivered t outDir base (job :: done) (fs.set place (.file content)) := by
  have hne : place ≠ [] := by
    obtain ⟨-, -, hSite, -⟩ := put?_eq_some hHere
    obtain ⟨around, -, hPlace, -⟩ := site_eq_ok hSite
    simp [hPlace]
  have hLinks : fs.links = [] := h.links.trans h.unlinked
  refine ⟨h.current, h.links, h.unlinked, fun other hOther there content' hThere => ?_,
    fun there hApart => ?_⟩
  · rw [entry?_set_of_unlinked hLinks hne]
    split
    · next hSame =>
      subst hSame
      have hOtherJob : other ∈ jobs := List.forall_mem_cons.mpr ⟨hJob, hDone⟩ other hOther
      obtain rfl := hBatch.eq_of_put hJob hOtherJob hHere hThere
      rw [hHere, Option.some.injEq, Prod.mk.injEq] at hThere
      rw [hThere.2]
    · next hDiffer =>
      rcases List.mem_cons.mp hOther with rfl | hOld
      · rw [hHere, Option.some.injEq, Prod.mk.injEq] at hThere
        exact absurd hThere.1.symm hDiffer
      · exact h.put other hOld there content' hThere
  · obtain ⟨hNotHere, hOld⟩ := List.forall_mem_cons.mp hApart
    rw [entry?_set_of_unlinked hLinks hne, if_neg fun hSame => hNotHere _ (hSame ▸ hHere)]
    exact h.kept there hOld

/-- A document that was made in the files `base` is delivered as if it were the only one. -/
theorem Delivered.deliver (h : Delivered t outDir base done fs)
    (hDone : ∀ other ∈ done, other ∈ jobs) {job : Job} (hJob : job ∈ jobs) {outcome : Outcome}
    (hDocument : Batch.document t job base = .ok outcome) :
    (deliver job outcome fs).1 = (perform t base job).1 ∧
      Delivered t outDir base (job :: done) (deliver job outcome fs).2 := by
  rw [perform, hDocument]
  dsimp only
  rw [hBatch.deliver_eq hJob, hBatch.deliver_eq hJob, h.site]
  cases hSite : base.site outDir job.name with
  | error e => exact ⟨rfl, h.cons_none (by rw [put?, hDocument, hSite])⟩
  | ok place => exact ⟨rfl, h.cons_some hBatch hDone hJob (by rw [put?, hDocument, hSite])⟩

/-! ### One job after the other -/

theorem runOn_runJobs {rest : List Job} (c : Console)
    (h : Delivered t outDir base done c.files) (hDone : ∀ job ∈ done, job ∈ jobs)
    (hRest : ∀ job ∈ rest, job ∈ jobs) :
    ∃ fs, (runJobs t rest).runOn c =
        (.ok (rest.map fun job => (perform t base job).1), { c with files := fs }) ∧
      Delivered t outDir base (rest.reverse ++ done) fs := by
  induction rest generalizing c done with
  | nil => exact ⟨c.files, rfl, h⟩
  | cons job rest ih =>
    obtain ⟨hJob, hRest⟩ := List.forall_mem_cons.mp hRest
    have hStep : (perform t c.files job).1 = (perform t base job).1 ∧
        Delivered t outDir base (job :: done) (perform t c.files job).2 := by
      rw [perform, h.document]
      cases hDocument : Batch.document t job base with
      | ok outcome => exact h.deliver hBatch hDone hJob hDocument
      | error failure =>
        refine ⟨?_, h.skip hDocument⟩
        rw [perform, hDocument]
    obtain ⟨fs, hRun, hAfter⟩ := ih { c with files := (perform t c.files job).2 } hStep.2
      (List.forall_mem_cons.mpr ⟨hJob, hDone⟩) hRest
    refine ⟨fs, ?_, by simpa using hAfter⟩
    have hFirst : (Action.attempt (runJob t job)).runOn c =
        (.ok (perform t base job).1, { c with files := (perform t c.files job).2 }) := by
      rw [Action.runOn_attempt, runOn_runJob, hStep.1]
    rw [runJobs, List.mapM_cons, Action.runOn_bind_ok hFirst]
    exact Action.runOn_bind_ok hRun _

end Batch

end Batch
end DocTemplate
