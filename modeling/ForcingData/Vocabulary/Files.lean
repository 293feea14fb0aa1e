import ForcingData.Content
import ForcingData.Hash.Sha256
import ForcingData.Vocabulary.Basic

/-! # Vocabulary files

`Vocabularies.ofFiles?` puts the vocabularies together from the content of their files. The
fingerprint is the hash of all names and contents, each with a zero byte after it. -/

namespace ForcingData
open Json

/-- The content of files by name. -/
abbrev RawFiles := Dict String ByteArray

namespace Vocabularies

inductive SourceError
  | noSource
  | invalidSource (reference : String)
  | sourceUnavailable (source file reason : String)
  | malformed (source file : String) (error : ContentError)
  | drsTemplate (source : String) (error : Drs.TemplateError)
deriving DecidableEq, Repr

def SourceError.message : SourceError → String
  | .noSource => "No CV source given; set it in the settings or through the environment"
  | .invalidSource reference => s!"Invalid CV source reference '{reference}'"
  | .sourceUnavailable source file reason =>
    s!"CV source '{source}' is unavailable (file '{file}') and nothing is cached: {reason}"
  | .malformed source file error =>
    s!"Failed to parse CV file '{file}' from '{source}': {error.message}"
  | .drsTemplate source error => s!"Invalid DRS template in CVs from '{source}': {error.message}"

def activityFile : String := "input4MIPs_activity_id.json"
def drsFile : String := "input4MIPs_DRS.json"
def institutionFile : String := "input4MIPs_institution_id.json"
def licenseFile : String := "input4MIPs_license.json"
def sourceFile : String := "input4MIPs_source_id.json"

/-- The files that have to be there. -/
def requiredFiles : List String :=
  [activityFile, drsFile, institutionFile, licenseFile, sourceFile]

/-- The files that may be there. -/
def optionalFiles : List String := Category.all.filterMap Category.simpleFile?

/-! ### Shapes -/

/-- A file with a single field. -/
def single? {α : Type} (name : String) (item? : Tree → Option α) (t : Tree) : Option α := do
  (← t.record? [name]).required name item?

structure DrsRecord where
  directoryTemplate : String
  directoryExample : Option String
  fileNameTemplate : String
  fileNameExample : Option String

def DrsRecord.ofTree? (t : Tree) : Option DrsRecord := do
  let r ← t.record? ["directory_path_template", "directory_path_example", "filename_template",
    "filename_example"]
  return {
    directoryTemplate := ← r.required "directory_path_template" Tree.string?
    directoryExample := ← r.withDefault "directory_path_example" none (Tree.option? Tree.string?)
    fileNameTemplate := ← r.required "filename_template" Tree.string?
    fileNameExample := ← r.withDefault "filename_example" none (Tree.option? Tree.string?) }

/-- A plain set of values: a list of them, or an object with a value for each description. -/
def names? (t : Tree) : Option Names := do
  match ← t.value? (depthLimit - 1) with
  | .array items =>
    let texts ← items.mapM fun
      | .text s => some s
      | _ => none
    return Names.ofList texts
  | .object members => return Names.ofList (members.map (·.1))
  | _ => none

/-- The set of values under the name of the category; without it nothing is permitted. -/
def simpleNames? (c : Category) (t : Tree) : Option Names :=
  (t.dict? names?).map fun file => (file.get? c.name).getD ∅

/-! ### Reading -/

/-- The message by which all files and their names are told apart. -/
def fingerprintBytes (files : RawFiles) : List UInt8 :=
  files.toList.flatMap fun (name, content) =>
    name.toUTF8.toList ++ 0 :: content.toList ++ [0]

def fingerprint (files : RawFiles) : String := (Hash.sha256 (fingerprintBytes files)).hex

section
variable (source : String) (files : RawFiles)

def parseFile {α : Type} (file : String) (content : ByteArray) (shape? : Tree → Option α) :
    Except SourceError α :=
  match (Tree.ofBytes? content).bind shape? with
  | some a => .ok a
  | none => .error (.malformed source file (.malformed .json))

def requireFile {α : Type} (file : String) (shape? : Tree → Option α) : Except SourceError α :=
  match files.get? file with
  | some content => parseFile source file content shape?
  | none => .error (.sourceUnavailable source file "file is missing")

/-- The sets of values of the categories whose file is there. -/
def simpleSets : List Category → Except SourceError (List (Category × Names))
  | [] => .ok []
  | c :: cs => do
    match c.simpleFile?.bind fun file => (files.get? file).map (file, ·) with
    | none => simpleSets cs
    | some (file, content) =>
      let names ← parseFile source file content (simpleNames? c)
      return (c, names) :: (← simpleSets cs)

/-- The vocabularies, or what is wrong with the first file that is missing or malformed. -/
def ofFiles? : Except SourceError Vocabularies := do
  let require {α : Type} (file : String) (shape? : Tree → Option α) : Except SourceError α :=
    requireFile source files file shape?
  let activities ← require activityFile (single? "activity_id" (Tree.dict? Activity.ofTree?))
  let institutions ← require institutionFile (single? "institution_id" (Tree.list? Tree.string?))
  let licenses ← require licenseFile (single? "license" (Tree.dict? License.ofTree?))
  let sources ← require sourceFile (single? "source_id" (Tree.dict? Source.ofTree?))
  let record ← require drsFile (single? "DRS" DrsRecord.ofTree?)
  let drs ← match Drs.ofTemplates? record.directoryTemplate record.fileNameTemplate with
    | .ok drs => pure drs
    | .error e => throw (SourceError.drsTemplate source e)
  let simple ← simpleSets source files Category.all
  return {
    version := ⟨source, fingerprint files⟩
    activities
    institutions := Names.ofList institutions
    licenses
    sources
    simple
    drs
    example? := match record.directoryExample, record.fileNameExample with
      | some directory, some fileName => some (directory, fileName)
      | _, _ => none }

end
end Vocabularies
end ForcingData
