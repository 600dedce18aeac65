import DocTemplate.Json.Reader
import DocTemplate.Toml.Reader
import DocTemplate.Yaml.Document

/-! The formats of data files. -/

namespace DocTemplate

inductive Format where
  | json
  | toml
  | yaml
deriving DecidableEq, Repr

namespace Format

/-- The format that a file's extension tells. Case does not matter. -/
def ofExtension? (extension : String) : Option Format :=
  match extension.map Char.toLower with
  | "json" => some .json
  | "toml" => some .toml
  | "yaml" | "yml" => some .yaml
  | _ => none

def read? : Format → String → Option Value
  | json, text => Json.readValue? text
  | toml, text => Toml.readValue? text
  | yaml, text => Yaml.readValue? text

end Format
end DocTemplate
