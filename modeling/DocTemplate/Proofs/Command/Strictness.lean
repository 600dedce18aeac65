import DocTemplate.Command.Session
import DocTemplate.Proofs.Command.Run
import DocTemplate.Proofs.Data.Fields
import DocTemplate.Proofs.Files.Overlay
import Mathlib.Data.List.Forall2

/-! Rendering in strict mode. A rendering reads all that it needs before it delivers anything, and
it delivers the document and its diagnostics before it looks at strictness. So if something does
not load, nothing is done, and else strictness decides on the verdict alone: until then the files
and all that is printed are the same with it and without it. -/

namespace DocTemplate

namespace DataFile

/-- Data files all load, and their layers make a value, or they fail as one of them does. -/
theorem loadLayers_cases (fs : FileSystem) (paths : List FilePath) :
    (∃ layers, List.Forall₂ (fun p v => load fs p = .ok v) paths layers ∧
      loadLayers fs paths = .ok (.layers layers)) ∨
    ∃ p ∈ paths, ∃ failure, load fs p = .error failure ∧
      loadLayers fs paths = .error failure := by
  suffices hEach : (∃ layers, List.Forall₂ (fun p v => load fs p = .ok v) paths layers ∧
      paths.mapM (load fs) = .ok layers) ∨
      ∃ p ∈ paths, ∃ failure, load fs p = .error failure ∧
        paths.mapM (load fs) = .error failure by
    rw [loadLayers]
    refine hEach.imp ?_ ?_
    · rintro ⟨layers, hLayers, hAll⟩
      exact ⟨layers, hLayers, by rw [hAll]; rfl⟩
    · rintro ⟨p, hMem, failure, hp, hFails⟩
      exact ⟨p, hMem, failure, hp, by rw [hFails]; rfl⟩
  induction paths with
  | nil => exact .inl ⟨[], .nil, rfl⟩
  | cons p paths ih =>
    rw [List.mapM_cons]
    cases hp : load fs p with
    | error failure => exact .inr ⟨p, List.mem_cons_self, failure, hp, rfl⟩
    | ok v =>
      rcases ih with ⟨layers, hLayers, hAll⟩ | ⟨q, hMem, failure, hq, hFails⟩
      · exact .inl ⟨v :: layers, .cons hp hLayers, by rw [hAll]; rfl⟩
      · exact .inr ⟨q, List.mem_cons_of_mem p hMem, failure, hq, by rw [hFails]; rfl⟩

theorem load_ne_error {fs : FileSystem} {paths : List FilePath} {layers : List Value}
    (h : List.Forall₂ (fun p v => load fs p = .ok v) paths layers) :
    ∀ p ∈ paths, ∀ failure, load fs p ≠ .error failure := by
  refine ((List.forall₂_and_left _ _).mp (h.imp fun p v hOk => ⟨fun failure hFails => ?_, hOk⟩)).1
  rw [hOk] at hFails
  contradiction

end DataFile

/-- The document that a template file makes of the data. -/
def TemplateFile.outcome (t : TemplateFile) (context : Value) : Outcome :=
  (Template.compile t.raw).render context

/-- The number of things wrong with a template and with the data for it. -/
def TemplateFile.anomalies (t : TemplateFile) (context : Value) : Nat :=
  (Template.compile t.raw).diagnostics.length +
    ((Template.compile t.raw).root.render context).diagnostics.length

/-- The console after some lines for the user. -/
def Console.tell (c : Console) (lines : String) : Console := { c with stderr := c.stderr ++ lines }

theorem Console.tell_empty (c : Console) : c.tell "" = c := by rw [tell, String.append_empty]

/-! ### Sessions -/

theorem Failure.exitCode_ne_zero (f : Failure) : f.exitCode ≠ 0 := by
  cases f <;> simp [exitCode]

namespace Session

/-- What is left when all steps of a command end so: the user is told of a failure, and that is all
that is added. -/
def ended (host : Host) : Except Failure Unit × Console → Session
  | (.ok (), console) => ⟨console, none⟩
  | (.error failure, console) =>
    ⟨console.tell (failure.text host.coloured), some failure⟩

theorem run_eq (i : Invocation) (host : Host) (fs : FileSystem) :
    run i host fs = ended host ((i.run host).runOn ⟨fs, "", ""⟩) := rfl

end Session

theorem Invocation.runOn_run {i : Invocation} {o : RenderOptions} (h : i.command = .render o)
    (host : Host) (c : Console) :
    (i.run host).runOn c =
      match Settings.load host c.files i.configPath with
      | .error failure => (.error failure, c)
      | .ok settings => (o.run host settings).runOn c := by
  have hRun : i.run host = run.settings i host >>= fun settings => o.run host settings := by
    rw [run, h]
  rw [hRun, Action.runOn_bind, run.settings, Action.runOn_fromFiles]
  cases Settings.load host c.files i.configPath <;> rfl

namespace RenderOptions

/-! ### What a rendering delivers -/

/-- The text is printed or written, as the options say. -/
inductive Delivers (o : RenderOptions) (text : String) (c : Console) : Console → Prop
  | printed (h : o.output = none) : Delivers o text c { c with stdout := c.stdout ++ text }
  | written {p : FilePath} {fs : FileSystem} (h : o.output = some p)
    (hWrite : c.files.write p text.toUTF8 = .ok fs) : Delivers o text c { c with files := fs }

theorem Delivers.withStrict {o : RenderOptions} {text : String} {c c' : Console}
    (h : o.Delivers text c c') (flag : Bool) : Delivers { o with strict := flag } text c c' := by
  cases h with
  | printed hOutput => exact .printed hOutput
  | written hOutput hWrite => exact .written hOutput hWrite

/-- The lines for the user about a document: in JSON there are none. -/
def told (o : RenderOptions) (host : Host) (source : TemplateFile) (context : Value)
    (outcome : Outcome) : String :=
  match o.format with
  | .text => String.join ((outcome.diagnostics.flatMap fun d =>
      d.lines host.coloured source (some context)).map (· ++ "\n"))
  | .json => ""

variable {o : RenderOptions} {host : Host} {settings : Settings} {source : TemplateFile}
  {context : Value} {outcome : Outcome} {text : String} {c c' : Console}

theorem Delivers.runOn_deliver (h : o.Delivers text c c') :
    (Action.deliver o.output text).runOn c = (.ok (), c') := by
  cases h with
  | printed h =>
    rw [h]
    rfl
  | written h hWrite =>
    rw [h]
    exact Action.runOn_writeFile hWrite _

theorem runOn_deliver_of_not_delivers (h : ∀ c', ¬o.Delivers text c c') :
    ∃ failure, (Action.deliver o.output text).runOn c = (.error failure, c) := by
  cases hOutput : o.output with
  | none => exact absurd (.printed hOutput) (h _)
  | some p =>
    cases hWrite : c.files.write p text.toUTF8 with
    | ok fs => exact absurd (.written hOutput hWrite) (h _)
    | error e => exact ⟨_, Action.runOn_writeFile_error hWrite _⟩

/-! ### The steps of a rendering -/

theorem runOn_run_of_not_prepared {failure : Failure}
    (h : o.prepare settings c.files = .error failure) :
    (o.run host settings).runOn c = (.error failure, c) := by
  have hRead := Action.runOn_fromFiles (o.prepare settings) c
  rw [h] at hRead
  rw [run, Action.runOn_bind_error hRead]

theorem runOn_run_of_delivers
    (h : o.prepare settings c.files = .ok (source, context, outcome))
    (hDelivers : o.Delivers (o.document source outcome) c c') :
    (o.run host settings).runOn c =
      (Failure.verdict (o.strict || settings.strict) outcome.diagnostics.length,
        c'.tell (o.told host source context outcome)) := by
  have hRead := Action.runOn_fromFiles (o.prepare settings) c
  rw [h] at hRead
  rw [run, Action.runOn_bind_ok hRead]
  refine (Action.runOn_bind_ok hDelivers.runOn_deliver _).trans ?_
  rw [told]
  cases o.format with
  | text => exact Action.runOn_bind_ok (Action.runOn_tellLines _ c') _
  | json => exact congrArg (Prod.mk _) (Console.tell_empty c').symm

theorem runOn_run_of_not_delivers (host : Host)
    (h : o.prepare settings c.files = .ok (source, context, outcome))
    (hDelivers : ∀ c', ¬o.Delivers (o.document source outcome) c c') :
    ∃ failure, (o.run host settings).runOn c = (.error failure, c) := by
  obtain ⟨failure, hFailure⟩ := runOn_deliver_of_not_delivers hDelivers
  have hRead := Action.runOn_fromFiles (o.prepare settings) c
  rw [h] at hRead
  refine ⟨failure, ?_⟩
  rw [run, Action.runOn_bind_ok hRead]
  exact Action.runOn_bind_error hFailure _

/-! ### Strictness -/

/-- The settings, the template or a data file of a rendering does not load. -/
inductive Unloaded (o : RenderOptions) (host : Host) (fs : FileSystem) (named : Option FilePath) :
    Prop
  | settings {failure : Failure} (h : Settings.load host fs named = .error failure)
  | template {settings : Settings} {failure : Failure}
    (hSettings : Settings.load host fs named = .ok settings)
    (h : TemplateFile.read settings fs o.template = .error failure)
  | data {p : FilePath} {failure : Failure} (hMem : p ∈ o.data)
    (h : DataFile.load fs p = .error failure)

/-- The rendering with strictness set by the flag and in the settings. -/
def runWith (o : RenderOptions) (host : Host) (settings : Settings) (flag configured : Bool) :
    Action Unit :=
  { o with strict := flag }.run host { settings with strict := configured }

theorem prepare_eq_ok {fs : FileSystem}
    (hSource : TemplateFile.read settings fs o.template = .ok source)
    (hContext : DataFile.loadLayers fs o.data = .ok context) :
    o.prepare settings fs = .ok (source, context, source.outcome context) := by
  rw [prepare, hSource]
  show (DataFile.loadLayers fs o.data >>= _) = _
  rw [hContext]
  rfl

/-- If something does not load, all steps of the command leave everything as it is. -/
theorem Unloaded.runOn_run {i : Invocation} (hCommand : i.command = .render o)
    (h : o.Unloaded host c.files i.configPath) :
    ∃ failure, (i.run host).runOn c = (.error failure, c) := by
  rw [Invocation.runOn_run hCommand]
  cases hSettings : Settings.load host c.files i.configPath with
  | error failure => exact ⟨failure, rfl⟩
  | ok settings =>
    suffices hPrepare : ∃ failure, o.prepare settings c.files = .error failure by
      obtain ⟨failure, hFailure⟩ := hPrepare
      exact ⟨failure, runOn_run_of_not_prepared hFailure⟩
    rw [prepare]
    cases hSource : TemplateFile.read settings c.files o.template with
    | error failure => exact ⟨failure, rfl⟩
    | ok source =>
      cases h with
      | settings h =>
        rw [hSettings] at h
        contradiction
      | template hSettings' h =>
        rw [hSettings] at hSettings'
        rw [← Except.ok.inj hSettings', hSource] at h
        contradiction
      | data hMem h =>
        have hData := DataFile.loadLayers_cases c.files o.data
        rcases hData with ⟨_, hLayers, -⟩ | ⟨_, _, first, _, hFirst⟩
        · exact absurd h (DataFile.load_ne_error hLayers _ hMem _)
        · refine ⟨first, ?_⟩
          show (DataFile.loadLayers c.files o.data >>= _) = _
          rw [hFirst]
          rfl

/-- What strictness changes of a rendering: the verdict on a document that is delivered. -/
structure StrictInVerdict (o : RenderOptions) (host : Host) (settings : Settings)
    (source : TemplateFile) (context : Value) (c : Console) : Prop where
  /-- The files and all that is printed are the same. -/
  same : ∀ flag configured, ((o.runWith host settings flag configured).runOn c).2 =
    ((o.runWith host settings false false).runOn c).2
  /-- Without strictness a document that can be delivered is, and its diagnostics are told. -/
  lax : ∀ c', o.Delivers (o.document source (source.outcome context)) c c' →
    (o.runWith host settings false false).runOn c =
      (.ok (), c'.tell (o.told host source context (source.outcome context)))
  /-- With strictness set in either way any anomaly is a failure. -/
  strict : ∀ c', o.Delivers (o.document source (source.outcome context)) c c' →
    ∀ flag configured, (flag || configured) = true →
      ((o.runWith host settings flag configured).runOn c).1 =
        if 0 < source.anomalies context then
          .error (.fault (.strictViolation (source.anomalies context)))
        else .ok ()

theorem strictInVerdict (host : Host)
    (hSource : TemplateFile.read settings c.files o.template = .ok source)
    (hContext : DataFile.loadLayers c.files o.data = .ok context) :
    o.StrictInVerdict host settings source context c := by
  -- Neither what is read nor what is delivered depends on strictness.
  have hPrepare (flag configured : Bool) :
      prepare { o with strict := flag } { settings with strict := configured } c.files =
        .ok (source, context, source.outcome context) := prepare_eq_ok hSource hContext
  have hDelivered {c' : Console} (flag configured : Bool)
      (h : o.Delivers (o.document source (source.outcome context)) c c') :
      (o.runWith host settings flag configured).runOn c =
        (Failure.verdict (flag || configured) (source.outcome context).diagnostics.length,
          c'.tell (o.told host source context (source.outcome context))) :=
    runOn_run_of_delivers (hPrepare flag configured) (h.withStrict flag)
  have hCount : (source.outcome context).diagnostics.length = source.anomalies context :=
    List.length_append
  refine ⟨fun flag configured => ?_, fun c' h => ?_, fun c' h flag configured hStrict => ?_⟩
  · by_cases hDelivers : ∃ c', o.Delivers (o.document source (source.outcome context)) c c'
    · obtain ⟨c', h⟩ := hDelivers
      rw [hDelivered flag configured h, hDelivered false false h]
    · have hNot (flag : Bool) (c' : Console) :
          ¬Delivers { o with strict := flag } (o.document source (source.outcome context)) c c' :=
        fun h => hDelivers ⟨c', h.withStrict o.strict⟩
      obtain ⟨_, hRun⟩ := runOn_run_of_not_delivers host (hPrepare flag configured) (hNot flag)
      obtain ⟨_, hRun'⟩ := runOn_run_of_not_delivers host (hPrepare false false) (hNot false)
      rw [runWith, runWith, hRun, hRun']
  · exact hDelivered false false h
  · rw [hDelivered flag configured h, hCount, hStrict]
    simp [Failure.verdict]

theorem document_eq (o : RenderOptions) (source : TemplateFile) (outcome : Outcome) :
    o.document source outcome =
      match o.format with
      | .text => outcome.output
      | .json => (source.outcomeJson outcome).pretty ++ if o.output = none then "\n" else "" := by
  rw [document]
  cases o.format with
  | text => rfl
  | json => cases o.output <;> simp

section Letter

/-- A letter with a closing tag too many, and data without a name. -/
def letterFiles : FileSystem where
  entries := [(["letter.txt"], .file "Dear \x7bname\x7d\x7b#end\x7d".toUTF8),
    (["al.json"], .file "\x7b\x7d".toUTF8)]
  current := []
  links := []

def letter (data : FilePath) (strict : Bool) : RenderOptions :=
  ⟨⟨"letter.txt"⟩, [data], none, .text, strict⟩

end Letter

end RenderOptions
end DocTemplate
