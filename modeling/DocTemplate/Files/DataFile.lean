import DocTemplate.Data.Layer
import DocTemplate.Failure
import DocTemplate.Files.FileSystem

/-! Data files. -/

namespace DocTemplate.DataFile

/-- The format that the extension of a file tells. -/
def format? (p : FilePath) : Option Format := p.extension?.bind Format.ofExtension?

/-- Reads a data file. Its format is looked at before the file itself. -/
def load (fs : FileSystem) (p : FilePath) : Except Failure Value :=
  match format? p with
  | none => .error (.fault (.unsupportedContextFormat p.text (p.extension?.getD "")))
  | some format =>
    if !fs.contains p then .error (.fault (.contextNotFound p.text))
    else
      match fs.readText p with
      | .error e => .error (.cause ["Failed to read context file " ++ p.text] (.system e))
      | .ok content =>
        match format.read? content with
        | some v => .ok v
        | none => .error (.fault (.invalidContext p.text))

/-- Reads several data files and puts them over each other, the first one lowest. -/
def loadLayers (fs : FileSystem) (paths : List FilePath) : Except Failure Value := do
  return .layers (← paths.mapM (load fs))

end DocTemplate.DataFile
