import ForcingData.Dataset.Header
import ForcingData.FileTree.Disk
import ForcingData.Outcome

/-! # Loading and copying data files

A loader describes the dataset in a file. `headerLoader` takes the header from the file beside it
or, if there is none, from the file itself. A writer puts a data file at a new place; `copyFile`
copies it with its header, and never overwrites a file. -/

namespace ForcingData

inductive LoadError
  | unreadable (path : Path) (error : OsError)
  | malformed (path : Path)
deriving DecidableEq, Repr

def LoadError.message : LoadError → String
  | .unreadable path e => s!"Failed to read dataset '{path.text}': {e.message}"
  | .malformed path =>
    s!"Failed to parse the header of dataset '{path.text}': not of the expected form"

abbrev Loader := FileTree → Path → Outcome (Except LoadError Dataset)

/-- The file that holds the header of a data file. -/
def headerPath (t : FileTree) (path : Path) : Path :=
  let sidecar := Dataset.sidecar path
  if t.isFile sidecar then sidecar else path

def loadHeader (t : FileTree) (path : Path) : Except LoadError Dataset :=
  match t.read (headerPath t path) with
  | .error e => .error (.unreadable path e)
  | .ok content =>
    match Dataset.ofBytes? content with
    | some d => .ok d
    | none => .error (.malformed path)

def headerLoader : Loader := fun t path => .done (loadHeader t path)

/-! ### Copying -/

inductive WriteError
  | alreadyExists (path : Path)
  | failed (source target : Path) (error : OsError)
deriving DecidableEq, Repr

def WriteError.message : WriteError → String
  | .alreadyExists path => s!"Refusing to overwrite the existing file '{path.text}'"
  | .failed source target e =>
    s!"Failed to write '{source.text}' to '{target.text}': {e.message}"

/-- Puts the file at the first path to the second one. -/
abbrev Writer := Path → Path → Disk WriteError Unit

/-- Makes the new file, and then fills it. -/
def copyNew (source target : Path) : Disk WriteError Unit := do
  let failed := WriteError.failed source target
  let _ ← Disk.ask fun t => (t.lookup source).mapError failed
  Disk.change fun t =>
    match t.createNew target ByteArray.empty with
    | .ok t => .ok t
    | .error .alreadyExists => .error (.alreadyExists target)
    | .error e => .error (failed e)
  let content ← Disk.ask fun t => (t.read source).mapError failed
  Disk.change fun t => (t.write target content).mapError failed

def copyFile : Writer := fun source target => do
  match target.parent? with
  | some parent =>
    (FileTree.createDirectories parent).withError (.failed source parent)
  | none => pure ()
  copyNew source target
  let sidecar := Dataset.sidecar source
  if (← get).isFile sidecar then copyNew sidecar (Dataset.sidecar target)

end ForcingData
