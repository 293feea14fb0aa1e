import ForcingData.FileTree.Find
import ForcingData.Pool.Basic
import ForcingData.Tree.Report
import ForcingData.Validation.File

/-! # Validating trees

All files of a tree that fit a pattern are validated by a pool of workers. Either every file is
attempted and the report tells what was found, or the first failure ends the run. In the end, files
that share a tracking id fail. -/

namespace ForcingData

inductive TreeError
  | find (error : FindError)
  | fileFailed (path : Path) (findings : Findings)
  | file (path : Path) (error : FileError)
deriving DecidableEq, Repr

def TreeError.message : TreeError → String
  | .find e => e.message
  | .fileFailed path findings => s!"Validation of '{path.text}' failed:\n{findings.text}"
  | .file path e => s!"Could not validate '{path.text}': {e.message}"

namespace TreeReport

def uniqueRule : String := "tree.tracking_id_unique"
def readableRule : String := "file_readable"

/-- What became of the work on a file. -/
abbrev Attempt := Path × Except FileError FileValidation

/-- The file failed, or could not be validated. -/
def isHardFailure (a : Attempt) : Bool :=
  match a.2 with
  | .ok v => v.findings.hasFailures
  | .error _ => true

def unreadable (path : Path) (message : String) : Finding :=
  (Finding.fail readableRule .unreadable message).withTarget path.text

/-! ### Tracking ids -/

/-- The paths by tracking id, in the order of the validations. -/
def byTrackingId (vs : List FileValidation) : Dict String (List Path) :=
  vs.foldl (fun owners v =>
    match v.trackingId? with
    | some id => owners.insert id ((owners.get? id).getD [] ++ [v.path])
    | none => owners) ∅

/-- What is found about a tracking id and the files that have it. -/
def uniqueness (id : String) (paths : List Path) : Finding :=
  if paths.length = 1 then .pass uniqueRule "tracking_id is unique in the tree"
  else
    .fail uniqueRule .notUnique
      s!"tracking_id={Text.quoted id} is shared by {Text.quotedList (paths.map (·.text))}"

/-- Adds the findings about tracking ids. -/
def checkTrackingIds (r : TreeReport) (vs : List FileValidation) : TreeReport :=
  (byTrackingId vs).toList.foldl (fun r (id, paths) =>
    paths.foldl (fun r path => r.amend path ((uniqueness id paths).withTarget path.text)) r) r

/-! ### Collecting attempts -/

/-- Takes the attempts into the report, up to the first failure if that is to end the run. -/
def take (continueOnError : Bool) :
    TreeReport → List FileValidation → List Attempt →
      Except TreeError (TreeReport × List FileValidation)
  | r, vs, [] => .ok (r, vs)
  | r, vs, (path, .ok v) :: rest =>
    if !continueOnError && v.findings.hasFailures then .error (.fileFailed path v.findings)
    else take continueOnError (r.finish path v.findings) (vs ++ [v]) rest
  | r, vs, (path, .error e) :: rest =>
    if !continueOnError then .error (.file path e)
    else take continueOnError (r.finish path [unreadable path e.message]) vs rest

/-- The report on the attempts at all files. -/
def ofAttempts (continueOnError : Bool) (paths : List Path) (attempts : List Attempt) :
    Except TreeError TreeReport := do
  let (r, vs) ← take continueOnError (discover paths) [] attempts
  let r := r.checkTrackingIds vs
  if continueOnError then return r
  match r.inState .failed with
  | [] => return r
  | path :: _ => throw (.fileFailed path (((r.get? path).map (·.findings)).getD []))

end TreeReport

/-- Validates a tree with some workers, as scheduled. Paths are checked in full. -/
def ValidationContext.validateTree (c : ValidationContext) (t : FileTree) (root : Path)
    (pattern : FilePattern) (continueOnError : Bool) (workers : Nat) (schedule : Nat → Nat) :
    Except TreeError TreeReport :=
  match t.findFiles root pattern with
  | .error e => .error (.find e)
  | .ok paths =>
    let c := { c with drsCheck := .fullPath }
    let work (path : Path) : Outcome TreeReport.Attempt := do
      return (path, ← c.validateFile t path)
    let recover (path : Path) (message : String) : TreeReport.Attempt :=
      (path, .error (.aborted message))
    let stop (a : TreeReport.Attempt) : Bool := !continueOnError && TreeReport.isHardFailure a
    let (attempts, _) := Pool.collect workers schedule work recover stop paths
    TreeReport.ofAttempts continueOnError paths attempts

end ForcingData
