import DocTemplate.Failure
import DocTemplate.Files.FileSystem
import DocTemplate.Toml.Reader
import DocTemplate.Toml.Writer

/-! The settings of the program and the file that holds them. -/

namespace DocTemplate

/-- What the program finds around it: the home directory, the value of the variable that names
another configuration file, the number of processors, and whether output is coloured. -/
structure Host where
  home : Option String
  configVariable : Option String
  cores : Nat
  coloured : Bool
deriving DecidableEq, Repr

/-- The greatest size of a template in bytes, unless the settings say otherwise. -/
def defaultMaxTemplateSize : Nat := 1024 * 1024

structure Settings where
  maxTemplateSize : Nat
  strict : Bool
  maxParallel : Option Nat
  templatesDir : Option FilePath
deriving DecidableEq, Repr

namespace Settings

def default : Settings := ⟨defaultMaxTemplateSize, false, none, none⟩

/-- The bound on documents rendered at once, which is never zero. -/
def parallelism (s : Settings) (host : Host) : Nat := max 1 (s.maxParallel.getD host.cores)

/-- Where a template is looked for: a relative path under the templates' directory, if there is
one. -/
def templatePath (s : Settings) (p : FilePath) : FilePath :=
  match s.templatesDir with
  | some dir => if p.isAbsolute then p else dir.join p
  | none => p

/-! ### The file -/

/-- A number of a setting: 64 bits without a sign. -/
def count? : Toml → Option Nat
  | .integer n => if 0 ≤ n ∧ n < Limits.unsigned64 then some n.toNat else none
  | _ => none

def bool? : Toml → Option Bool
  | .bool b => some b
  | _ => none

def path? : Toml → Option FilePath
  | .string s => some ⟨s⟩
  | _ => none

/-- The setting under a key, or its default if it is not there. -/
def field? {α : Type} (fields : List (String × Toml)) (key : String) (read : Toml → Option α)
    (default : α) : Option α :=
  match fields.lookup key with
  | some v => read v
  | none => some default

/-- The settings of a document. Keys that are no settings are ignored. -/
def ofToml? : Toml → Option Settings
  | .table fields => do
    let maxTemplateSize ← field? fields "max_template_size" count? defaultMaxTemplateSize
    let strict ← field? fields "strict" bool? false
    let maxParallel ← field? fields "max_parallel" (fun v => (count? v).map some) none
    let templatesDir ← field? fields "templates_dir" (fun v => (path? v).map some) none
    return ⟨maxTemplateSize, strict, maxParallel, templatesDir⟩
  | _ => none

def line (key value : String) : String := key ++ " = " ++ value ++ "\n"

/-- The file of the settings. Those that are absent or have their default are left out, except for
strictness. -/
def toml (s : Settings) : String :=
  (if s.maxTemplateSize = defaultMaxTemplateSize then ""
    else line "max_template_size" (toString s.maxTemplateSize)) ++
  line "strict" (if s.strict then "true" else "false") ++
  (match s.maxParallel with
    | some n => line "max_parallel" (toString n)
    | none => "") ++
  (match s.templatesDir with
    | some dir => line "templates_dir" (Toml.quoteText dir.text)
    | none => "")

def readFrom (fs : FileSystem) (p : FilePath) : Except Failure Settings :=
  match fs.readText p with
  | .error e => .error (.cause ["Failed to read config from " ++ p.text] (.system e))
  | .ok content =>
    match (Toml.parse? content).bind ofToml? with
    | some s => .ok s
    | none => .error (.cause ["Failed to parse config from " ++ p.text] (.unreadable .toml))

/-- The configuration file in the home directory. -/
def homePath (host : Host) : Except Failure FilePath :=
  match host.home with
  | some home => .ok (((FilePath.mk home).join ⟨".docgen"⟩).join ⟨"config.toml"⟩)
  | none => .error (.cause [] (.message "Unable to determine home directory"))

/-- The configuration file when none is named: the one that the variable names, unless it is empty,
and else the one in the home directory. -/
def locate (host : Host) : Except Failure FilePath :=
  match host.configVariable with
  | some path => if path.isEmpty then homePath host else .ok ⟨path⟩
  | none => homePath host

/-- The settings in the file that is named or else located. A file that is not there leaves all
defaults. -/
def load (host : Host) (fs : FileSystem) (named : Option FilePath) : Except Failure Settings := do
  let p ← match named with
    | some p => .ok p
    | none => locate host
  if fs.contains p then readFrom fs p else .ok default

def makeParent (fs : FileSystem) (p : FilePath) : Except Failure Unit × FileSystem :=
  match p.parent? with
  | none => (.ok (), fs)
  | some parent =>
    let (made, fs) := fs.createAll parent
    (made.mapError fun e =>
      .cause ["Failed to create config directory: " ++ parent.text] (.system e), fs)

/-- Writes the file, after the directories around it are made. On failure they may have been made
all the same. -/
def saveTo (s : Settings) (fs : FileSystem) (p : FilePath) : Except Failure Unit × FileSystem :=
  match makeParent fs p with
  | (.error failure, fs) => (.error failure, fs)
  | (.ok (), fs) =>
    match fs.write p s.toml.toUTF8 with
    | .ok fs => (.ok (), fs)
    | .error e => (.error (.cause ["Failed to write config to " ++ p.text] (.system e)), fs)

end Settings
end DocTemplate
