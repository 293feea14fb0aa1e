import ForcingData.Json.Parser
import ForcingData.Path
import ForcingData.Text.Lowercase
import ForcingData.Yaml.Value

/-! # Structured files

The extension of a file says in which format its content is written. -/

namespace ForcingData

inductive Format
  | json
  | yaml
deriving DecidableEq, Repr

inductive ContentError
  | noExtension (path : String)
  | unsupportedExtension (extension : String)
  | malformed (format : Format)
deriving DecidableEq, Repr

def Format.name : Format → String
  | .json => "JSON"
  | .yaml => "YAML"

def ContentError.message : ContentError → String
  | .noExtension path => s!"Path is not a file-path or the file has no extension: '{path}'"
  | .unsupportedExtension extension => s!"Unsupported file extension '{extension}'"
  | .malformed format => s!"Failed to parse {format.name}: not of the expected form"

/-- Case does not matter in an extension. -/
def Format.ofPath? (path : Path) : Except ContentError Format :=
  match path.extension? with
  | none => .error (.noExtension path.text)
  | some extension =>
    let extension := Text.lowercase extension
    if extension = "json" then .ok .json
    else if extension = "yml" || extension = "yaml" then .ok .yaml
    else .error (.unsupportedExtension extension)

def Format.value? : Format → String → Option Json.Value
  | .json, text => Json.Value.parse? text
  | .yaml, text => Yaml.valueOf? text

/-- The value in a file of this name. -/
def parseContent (path : Path) (text : String) : Except ContentError Json.Value :=
  match Format.ofPath? path with
  | .error e => .error e
  | .ok format =>
    match format.value? text with
    | some v => .ok v
    | none => .error (.malformed format)

end ForcingData
