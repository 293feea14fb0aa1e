import ForcingData.Finding
import ForcingData.Path

/-! # Reports on trees of files

A tree report holds, for every file of a tree, how far its validation has come and what was found.
A file that is done is in the state that its findings call for. -/

namespace ForcingData
open Json

inductive FileState
  | discovered
  | validating
  | passed
  | failed
  | warned
deriving DecidableEq, Repr, Inhabited

namespace FileState

def all : List FileState := [.discovered, .validating, .passed, .failed, .warned]

def name : FileState → String
  | .discovered => "discovered"
  | .validating => "validating"
  | .passed => "passed"
  | .failed => "failed"
  | .warned => "warned"

def isTerminal : FileState → Bool
  | .passed | .failed | .warned => true
  | .discovered | .validating => false

def ofStatus : Status → FileState
  | .pass => .passed
  | .warning => .warned
  | .fail => .failed

/-- What a file in this state contributes; one that is not done counts as failed. -/
def status : FileState → Status
  | .passed => .pass
  | .warned => .warning
  | .failed | .discovered | .validating => .fail

end FileState

structure FileReport where
  state : FileState
  findings : Findings
deriving DecidableEq, Repr, Inhabited

namespace FileReport

def discovered : FileReport := ⟨.discovered, []⟩

/-- The report on a file that is done. -/
def ofFindings (findings : Findings) : FileReport := ⟨.ofStatus findings.summary, findings⟩

/-- One more finding, which may change the state. -/
def amend (r : FileReport) (f : Finding) : FileReport := ofFindings (r.findings ++ [f])

def json (r : FileReport) : Value :=
  .object [("state", .text r.state.name), ("results", r.findings.json)]

def ofTree? (t : Tree) : Option FileReport := do
  let r ← t.record? ["state", "results"]
  return {
    state := ← r.required "state" (Tree.choice? (FileState.all.map fun s => (s.name, s)))
    findings := ← r.required "results" Findings.ofTree? }

end FileReport

structure TreeReport where
  files : Dict Path FileReport
deriving DecidableEq, Inhabited

namespace TreeReport

def discover (paths : List Path) : TreeReport :=
  ⟨Dict.ofList (paths.map fun p => (p, .discovered))⟩

def get? (r : TreeReport) (p : Path) : Option FileReport := r.files.get? p

/-- Changes the report on one file. -/
def update (r : TreeReport) (p : Path) (f : FileReport → FileReport) : TreeReport :=
  ⟨r.files.insert p (f ((r.get? p).getD .discovered))⟩

def finish (r : TreeReport) (p : Path) (findings : Findings) : TreeReport :=
  r.update p fun _ => .ofFindings findings

def amend (r : TreeReport) (p : Path) (f : Finding) : TreeReport :=
  r.update p (·.amend f)

def size (r : TreeReport) : Nat := r.files.size

/-- The paths of the files in this state, in order. -/
def inState (r : TreeReport) (s : FileState) : List Path :=
  (r.files.filter fun _ f => f.state = s).keys

def count (r : TreeReport) (s : FileState) : Nat := (r.inState s).length

/-- The most severe status of a file. -/
def summary (r : TreeReport) : Status :=
  r.files.values.foldl (fun s f => s.max f.state.status) .pass

/-- A line for each file, and one with the totals. -/
def text (r : TreeReport) : String :=
  String.join (r.files.toList.map fun (p, f) => s!"{f.state.name}: {p.text}\n")
    ++ s!"{r.size} file(s): {r.count .passed} passed, {r.count .warned} warned, "
    ++ s!"{r.count .failed} failed"

def json (r : TreeReport) : Value :=
  .object (r.files.toList.map fun (p, f) => (p.text, f.json))

/-- The report with its totals; `files` stands for the files. -/
def overview (r : TreeReport) (files : Value) : List (String × Value) :=
  [("files", files), ("len", .nat r.size),
    ("counts", .object (FileState.all.map fun s => (s.name, .nat (r.count s)))),
    ("paths", .object (FileState.all.map fun s =>
      (s.name, .texts ((r.inState s).map Path.text)))),
    ("terminal", .array (r.files.values.map fun f => .bool f.state.isTerminal)),
    ("summary", .text r.summary.name), ("text", .text r.text)]

def ofTree? (t : Tree) : Option TreeReport := do
  let entries ← t.entries? FileReport.ofTree?
  return ⟨Dict.ofList (entries.map fun (name, f) => (⟨name⟩, f))⟩

end TreeReport
end ForcingData
