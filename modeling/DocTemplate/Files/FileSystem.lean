import DocTemplate.Files.FilePath
import DocTemplate.Files.SystemError

/-! A file system as a value: what stands at each place, and the operations that read and change it.

A file may have further names: what is written under one of them is read under all. There are no
symbolic links. A path is followed part by part from the root or the working directory, and each
part but the last must be a directory. -/

namespace DocTemplate

/-- What stands at a place. -/
inductive Entry where
  | directory
  | file (content : ByteArray)

instance : DecidableEq Entry
  | .directory, .directory => isTrue rfl
  | .directory, .file _ | .file _, .directory => isFalse nofun
  | .file ⟨a⟩, .file ⟨b⟩ =>
    if h : a = b then isTrue (by rw [h]) else isFalse (fun hEq => by cases hEq; exact h rfl)

/-- A place by the names on the way to it from the root. -/
abbrev Place := List String

/-- The entries by place, each place once, the place of the working directory, and the further names
of files, each with the place that the file is kept at. The root is a directory without an entry of
its own. -/
structure FileSystem where
  entries : List (Place × Entry)
  current : Place
  links : List (Place × Place)

namespace FileSystem

/-- Where that is kept which stands at a place: there, unless it is a further name. -/
def home (fs : FileSystem) (place : Place) : Place := (fs.links.lookup place).getD place

def entry? (fs : FileSystem) (place : Place) : Option Entry :=
  if place.isEmpty then some .directory else fs.entries.lookup (fs.home place)

/-- Replaces or adds the entry at a place, where it stands in the list. -/
def setEntry (place : Place) (e : Entry) : List (Place × Entry) → List (Place × Entry)
  | [] => [(place, e)]
  | (p, old) :: entries =>
    if p = place then (p, e) :: entries else (p, old) :: setEntry place e entries

def set (fs : FileSystem) (place : Place) (e : Entry) : FileSystem :=
  { fs with entries := setEntry (fs.home place) e fs.entries }

/-! ### Following paths -/

/-- Where a path leads: to an entry, or to a place in a directory where nothing stands. `named`
tells that the path ends in a name, and `slashed` that a slash follows it. -/
structure Target where
  place : Place
  entry : Option Entry
  named : Bool
  slashed : Bool

/-- Follows the parts of a path from a place. A dot stays, and two dots go up. -/
def follow (fs : FileSystem) (place : Place) : List String → Except SystemError Target
  | [] => .ok ⟨place, fs.entry? place, false, false⟩
  | part :: parts =>
    if fs.entry? place ≠ some .directory then
      .error (if (fs.entry? place).isNone then .noSuchFile else .notDirectory)
    else if FilePath.isVoid part then fs.follow place parts
    else if part == ".." then fs.follow place.dropLast parts
    else
      let place := place ++ [part]
      if parts.isEmpty then .ok ⟨place, fs.entry? place, true, false⟩
      else if parts.all String.isEmpty then .ok ⟨place, fs.entry? place, true, true⟩
      else fs.follow place parts

/-- Follows a path. The empty path leads nowhere. -/
def target (fs : FileSystem) (p : FilePath) : Except SystemError Target :=
  if p.text.isEmpty then .error .noSuchFile
  else fs.follow (if p.isAbsolute then [] else fs.current) p.parts

/-- The entry that a path leads to. After a slash it must be a directory. -/
def find (fs : FileSystem) (p : FilePath) : Except SystemError Entry := do
  let t ← fs.target p
  match t.entry with
  | none => .error .noSuchFile
  | some e => if t.slashed ∧ e ≠ .directory then .error .notDirectory else .ok e

/-- Whether a path leads to an entry. -/
def contains (fs : FileSystem) (p : FilePath) : Bool := (fs.find p).isOk

def isDirectory (fs : FileSystem) (p : FilePath) : Bool :=
  match fs.find p with
  | .ok .directory => true
  | _ => false

/-! ### Reading and writing -/

def read (fs : FileSystem) (p : FilePath) : Except SystemError ByteArray := do
  match ← fs.find p with
  | .file content => .ok content
  | .directory => .error .isDirectory

/-- The content of a file as text. -/
def readText (fs : FileSystem) (p : FilePath) : Except SystemError String := do
  match String.fromUTF8? (← fs.read p) with
  | some text => .ok text
  | none => .error .notText

/-- Writes a file anew. Only a name can be written, and no directory. -/
def write (fs : FileSystem) (p : FilePath) (content : ByteArray) :
    Except SystemError FileSystem := do
  let t ← fs.target p
  if !t.named || t.slashed || t.entry = some .directory then .error .isDirectory
  else .ok (fs.set t.place (.file content))

/-- Makes a directory where nothing stands. -/
def makeDirectory (fs : FileSystem) (p : FilePath) : Except SystemError FileSystem := do
  let t ← fs.target p
  if t.entry.isSome then .error .fileExists else .ok (fs.set t.place .directory)

/-- Makes a directory, and before it at most `fuel` of those around it, unless it is there. On
failure some of those may have been made. -/
def makeDirectories (fs : FileSystem) :
    Nat → FilePath → Except SystemError Unit × FileSystem
  | 0, _ => (.error .noSuchFile, fs)
  | fuel + 1, p =>
    if p.text.isEmpty then (.ok (), fs)
    else
      match fs.makeDirectory p with
      | .ok fs => (.ok (), fs)
      | .error e =>
        match e.kind, p.parent? with
        | .notFound, some parent =>
          match fs.makeDirectories fuel parent with
          | (.error e, fs) => (.error e, fs)
          | (.ok (), fs) =>
            match fs.makeDirectory p with
            | .ok fs => (.ok (), fs)
            | .error e => (if fs.isDirectory p then .ok () else .error e, fs)
        | _, _ => (if fs.isDirectory p then .ok () else .error e, fs)

/-- Makes a directory and those around it, unless they are there. A path has fewer parents than
characters. -/
def createAll (fs : FileSystem) (p : FilePath) : Except SystemError Unit × FileSystem :=
  fs.makeDirectories (p.text.length + 1) p

end FileSystem
end DocTemplate
