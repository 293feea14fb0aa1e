import ForcingData.Json.Decode
import ForcingData.Json.Encode

/-! # Findings

A finding is what one rule says about one target: it passes, warns or fails, with a message and, if
it does not pass, the kind of fault. `Findings` are kept in the order they were made; their summary
is the most severe status among them. -/

namespace ForcingData
open Json

/-- In order of severity. -/
inductive Status
  | pass
  | warning
  | fail
deriving DecidableEq, Repr, Inhabited

namespace Status

def severity : Status → Nat
  | .pass => 0
  | .warning => 1
  | .fail => 2

/-- The more severe of two. -/
def max (a b : Status) : Status := if a.severity < b.severity then b else a

def name : Status → String
  | .pass => "pass"
  | .warning => "warning"
  | .fail => "fail"

def all : List Status := [.pass, .warning, .fail]

end Status

/-- Why a rule did not pass. -/
inductive Fault
  /-- A value is not one of the values the vocabularies allow. -/
  | notInCvs
  /-- A value contradicts another one, by the vocabularies. -/
  | valueInconsistentWithCvs
  /-- A required attribute is not there. -/
  | missingAttribute
  /-- A value does not have the required form. -/
  | invalidFormat
  /-- The metadata contradicts the data. -/
  | datasetInconsistency
  /-- Two sources of a value disagree. -/
  | discrepancy
  /-- The file is not where it belongs. -/
  | drsMismatch
  /-- The path does not follow the reference syntax at all. -/
  | drsParse
  /-- The conventions checker reported it. -/
  | cfChecker
  /-- A value that has to be unique is not. -/
  | notUnique
  /-- The file has another hash than the recorded one. -/
  | hashMismatch
  /-- The file could not be read. -/
  | unreadable
  /-- The rule came to no verdict. -/
  | ruleError
deriving DecidableEq, Repr, Inhabited

namespace Fault

def name : Fault → String
  | .notInCvs => "not_in_cvs"
  | .valueInconsistentWithCvs => "value_inconsistent_with_cvs"
  | .missingAttribute => "missing_attribute"
  | .invalidFormat => "invalid_format"
  | .datasetInconsistency => "dataset_inconsistency"
  | .discrepancy => "discrepancy"
  | .drsMismatch => "drs_mismatch"
  | .drsParse => "drs_parse"
  | .cfChecker => "cf_checker"
  | .notUnique => "not_unique"
  | .hashMismatch => "hash_mismatch"
  | .unreadable => "unreadable"
  | .ruleError => "rule_error"

def all : List Fault :=
  [.notInCvs, .valueInconsistentWithCvs, .missingAttribute, .invalidFormat, .datasetInconsistency,
    .discrepancy, .drsMismatch, .drsParse, .cfChecker, .notUnique, .hashMismatch, .unreadable,
    .ruleError]

end Fault

structure Finding where
  rule : String
  target : String
  status : Status
  message : String
  fault : Option Fault
deriving DecidableEq, Repr, Inhabited

abbrev Findings := List Finding

namespace Finding

def pass (rule message : String) : Finding := ⟨rule, "", .pass, message, none⟩

def warning (rule : String) (fault : Fault) (message : String) : Finding :=
  ⟨rule, "", .warning, message, some fault⟩

def fail (rule : String) (fault : Fault) (message : String) : Finding :=
  ⟨rule, "", .fail, message, some fault⟩

def withTarget (f : Finding) (target : String) : Finding := { f with target }

def isFail (f : Finding) : Bool := f.status = .fail

/-- One line: status, rule, fault, target and message. -/
def text (f : Finding) : String :=
  let fault := match f.fault with
    | some k => s!" ({k.name})"
    | none => ""
  let target := if f.target = "" then "" else s!" '{f.target}'"
  s!"[{f.status.name}] {f.rule}{fault}{target}: {f.message}"

/-! ### As JSON -/

def json (f : Finding) : Value :=
  .object ([("rule", .text f.rule), ("target", .text f.target), ("status", .text f.status.name),
    ("message", .text f.message)] ++
    match f.fault with
    | some k => [("error_kind", .text k.name)]
    | none => [])

def ofTree? (t : Tree) : Option Finding := do
  let r ← t.record? ["rule", "target", "status", "message", "error_kind"]
  return {
    rule := ← r.required "rule" Tree.string?
    target := ← r.required "target" Tree.string?
    status := ← r.required "status" (Tree.choice? (Status.all.map fun s => (s.name, s)))
    message := ← r.required "message" Tree.string?
    fault := ← r.withDefault "error_kind" none
      (Tree.option? (Tree.choice? (Fault.all.map fun k => (k.name, k)))) }

end Finding

namespace Findings

/-- The most severe status, and a pass if there are no findings. -/
def summary (fs : Findings) : Status := fs.foldl (fun s f => s.max f.status) .pass

def withStatus (fs : Findings) (s : Status) : Findings := fs.filter (·.status = s)

def failures (fs : Findings) : Findings := withStatus fs .fail

def hasFailures (fs : Findings) : Bool := fs.any Finding.isFail

/-- Gives the target to the findings that have none yet. -/
def withTarget (fs : Findings) (target : String) : Findings :=
  fs.map fun f => if f.target = "" then f.withTarget target else f

/-- A line for each finding. -/
def text (fs : Findings) : String := String.join (fs.map fun f => f.text ++ "\n")

def json (fs : Findings) : Value := .array (fs.map Finding.json)

def ofTree? : Tree → Option Findings := Tree.list? Finding.ofTree?

end Findings
end ForcingData
