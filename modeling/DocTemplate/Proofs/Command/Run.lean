import DocTemplate.Command.Action

/-! Running the steps of a command: the result of a step and the console after it. -/

namespace DocTemplate.Action

variable {α β : Type}

def runOn (a : Action α) (c : Console) : Except Failure α × Console := a.run.run c

theorem runOn_bind (a : Action α) (f : α → Action β) (c : Console) :
    (a >>= f).runOn c =
      match a.runOn c with
      | (.ok x, c) => (f x).runOn c
      | (.error failure, c) => (.error failure, c) := by
  rw [runOn, runOn, ExceptT.run_bind, StateT.run_bind]
  generalize a.run.run c = run
  obtain ⟨result, c'⟩ := run
  cases result <;> rfl

theorem runOn_bind_ok {a : Action α} {c c' : Console} {x : α} (h : a.runOn c = (.ok x, c'))
    (f : α → Action β) : (a >>= f).runOn c = (f x).runOn c' := by
  rw [runOn_bind, h]

theorem runOn_bind_error {a : Action α} {c c' : Console} {failure : Failure}
    (h : a.runOn c = (.error failure, c')) (f : α → Action β) :
    (a >>= f).runOn c = (.error failure, c') := by
  rw [runOn_bind, h]

@[simp] theorem runOn_ofResult (result : Except Failure α) (c : Console) :
    (ofResult result).runOn c = (result, c) := rfl

@[simp] theorem runOn_attempt (a : Action α) (c : Console) :
    (attempt a).runOn c = (.ok (a.runOn c).1, (a.runOn c).2) := rfl

theorem runOn_files (c : Console) : files.runOn c = (.ok c.files, c) := rfl

@[simp] theorem runOn_fromFiles (f : FileSystem → Except Failure α) (c : Console) :
    (fromFiles f).runOn c = (f c.files, c) := by
  rw [fromFiles, runOn_bind_ok (runOn_files c)]
  cases f c.files <;> rfl

@[simp] theorem runOn_changeFiles (f : FileSystem → Except Failure Unit × FileSystem)
    (c : Console) :
    (changeFiles f).runOn c = ((f c.files).1, { c with files := (f c.files).2 }) := by
  rw [changeFiles, runOn_bind_ok (runOn_files c)]
  generalize f c.files = change
  obtain ⟨result, fs⟩ := change
  cases result <;> rfl

theorem runOn_tell (s : String) (c : Console) :
    (tell s).runOn c = (.ok (), { c with stderr := c.stderr ++ (s ++ "\n") }) := by
  rw [← String.append_assoc]
  rfl

theorem runOn_tellLines (lines : List String) (c : Console) :
    (lines.forM tell).runOn c =
      (.ok (), { c with stderr := c.stderr ++ String.join (lines.map (· ++ "\n")) }) := by
  induction lines generalizing c with
  | nil => rw [List.map_nil, String.join_nil, String.append_empty]; rfl
  | cons line lines ih =>
    show (tell line >>= fun _ => lines.forM tell).runOn c = _
    rw [runOn_bind_ok (runOn_tell line c), ih, List.map_cons, String.join_cons,
      String.append_assoc]

theorem runOn_writeFile {fs : FileSystem} {p : FilePath} {text : String} {c : Console}
    (h : c.files.write p text.toUTF8 = .ok fs) (note : String) :
    (writeFile p text note).runOn c = (.ok (), { c with files := fs }) := by
  rw [writeFile, runOn_changeFiles, h]

theorem runOn_writeFile_error {e : SystemError} {p : FilePath} {text : String} {c : Console}
    (h : c.files.write p text.toUTF8 = .error e) (note : String) :
    (writeFile p text note).runOn c = (.error (.cause [note] (.system e)), c) := by
  rw [writeFile, runOn_changeFiles, h]

/-! ### Steps that only print -/

/-- The step neither reads nor changes the file system. -/
def Prints (a : Action α) : Prop :=
  ∀ c fs, a.runOn { c with files := fs } =
    ((a.runOn c).1, { (a.runOn c).2 with files := fs })

theorem Prints.files {a : Action α} (h : a.Prints) (c : Console) :
    (a.runOn c).2.files = c.files := by
  have hSame := congrArg (fun r => r.2.files) (h c c.files)
  exact hSame

theorem prints_pure (a : α) : (pure a : Action α).Prints := fun _ _ => rfl

theorem prints_ofResult (result : Except Failure α) : (ofResult result).Prints := fun _ _ => rfl

theorem prints_print (s : String) : (print s).Prints := fun _ _ => rfl

theorem prints_tell (s : String) : (tell s).Prints := fun _ _ => rfl

theorem Prints.bind {a : Action α} {f : α → Action β} (ha : a.Prints) (hf : ∀ x, (f x).Prints) :
    (a >>= f).Prints := by
  intro c fs
  rw [runOn_bind, runOn_bind, ha c fs]
  obtain ⟨result, c'⟩ := a.runOn c
  cases result with
  | ok x => exact hf x c' fs
  | error failure => rfl

theorem Prints.forM {f : α → Action Unit} (hf : ∀ x, (f x).Prints) (xs : List α) :
    (xs.forM f).Prints := by
  induction xs with
  | nil => exact prints_pure ()
  | cons x xs ih =>
    show (f x >>= fun _ => xs.forM f).Prints
    exact (hf x).bind fun _ => ih

theorem prints_tellDiagnostics (coloured : Bool) (t : TemplateFile) (context : Option Value)
    (diagnostics : List Diagnostic) : (tellDiagnostics coloured t context diagnostics).Prints :=
  Prints.forM prints_tell _

end DocTemplate.Action
