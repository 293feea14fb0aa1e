import ForcingData.Compliance.Checker
import ForcingData.Dataset.Consistency
import ForcingData.Dataset.Loader
import ForcingData.Metadata.Placement

/-! # Validating files

What is found about one file: by the compliance checker, by the rules on its attributes, by
comparing them to its data, and by comparing its path to them. What a rule finds is no error; only a
file that can not be read or checked is one. -/

namespace ForcingData

inductive FileError
  | load (error : LoadError)
  | check (error : Compliance.CheckError)
  /-- The work on the file was aborted. -/
  | aborted (message : String)
deriving DecidableEq, Repr

def FileError.message : FileError → String
  | .load e => e.message
  | .check e => e.message
  | .aborted message => s!"Validating the file panicked: {message}"

/-- All that it takes to validate files. -/
structure ValidationContext where
  cv : Vocabularies
  loader : Loader
  checker : Compliance.Checking
  indicators : List String
  allowWarnings : Bool
  drsCheck : DrsCheck

structure FileValidation where
  path : Path
  /-- The attributes in the file. -/
  attributes : Attributes
  findings : Findings
deriving DecidableEq

namespace FileValidation

def trackingId? (v : FileValidation) : Option String := v.attributes.get? "tracking_id"

def status (v : FileValidation) : Status := v.findings.summary

def overview (v : FileValidation) : List (String × Json.Value) :=
  [("path", .text v.path.text), ("attributes", .ofDict .text v.attributes),
    ("tracking_id", .ofOption .text v.trackingId?), ("status", .text v.status.name),
    ("results", v.findings.json)]

end FileValidation

namespace ValidationContext

/-- The finding about the path. Without valid metadata there is nothing to compare it to. -/
def checkPath (c : ValidationContext) (path : Path) (attributes : Attributes) : Finding :=
  match Metadata.ofFile? attributes c.cv with
  | .ok m => c.drsCheck.validate c.cv.drs path m
  | .error e =>
    .warning c.drsCheck.rule .drsMismatch
      s!"Not checked, as the metadata is invalid: {e.message}"

/-- What is found about a dataset at a path. -/
def inspect (c : ValidationContext) (path : Path) (d : Dataset) : Outcome FileValidation := do
  let attributes := d.textAttributes
  let consistency ← Consistency.validate d attributes c.indicators
  let findings :=
    Rule.validateAttributes attributes c.cv ++ consistency ++ [c.checkPath path attributes]
  return ⟨path, attributes, findings⟩

/-- Validates a file: first the checker runs, then the file is read. -/
def validateFile (c : ValidationContext) (t : FileTree) (path : Path) :
    Outcome (Except FileError FileValidation) := do
  match ← c.checker t path with
  | .error e => return .error (.check e)
  | .ok report =>
    match ← c.loader t path with
    | .error e => return .error (.load e)
    | .ok d =>
      let v ← c.inspect path d
      let findings := report.finding c.allowWarnings :: v.findings
      return .ok { v with findings := Findings.withTarget findings path.text }

end ValidationContext
end ForcingData
