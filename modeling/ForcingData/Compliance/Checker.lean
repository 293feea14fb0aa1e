import ForcingData.Compliance.Report
import ForcingData.FileTree.Basic
import ForcingData.Outcome

/-! # Compliance checkers

A checker reports on a file, or can not be run. `Checker.command` runs a command with the path as
its argument and reads what it writes, the standard output first. -/

namespace ForcingData.Compliance

/-- The command could not be run. -/
structure CheckError where
  command : String
  path : Path
  error : OsError
deriving DecidableEq, Repr

def CheckError.message (e : CheckError) : String :=
  s!"Failed to run the CF checker '{e.command}' on '{e.path.text}': {e.error.message}"

abbrev Checker := FileTree → Path → Except CheckError Report

/-- A checker whose work on a file may be aborted. -/
abbrev Checking := FileTree → Path → Outcome (Except CheckError Report)

instance : Coe Checker Checking := ⟨fun checker t path => .done (checker t path)⟩

/-- What a command leaves behind. -/
structure Run where
  output : String
  errors : String
  endedWell : Bool
deriving DecidableEq, Repr

def Run.report (r : Run) : Report := .ofText (r.output ++ r.errors) r.endedWell

/-- The commands that can be run, and what they do with a path. -/
abbrev Commands := String → FileTree → Path → Except OsError Run

namespace Checker

/-- Reports the same on every file. -/
def fixed (r : Report) : Checker := fun _ _ => .ok r

def command (commands : Commands) (name : String) : Checker := fun t path =>
  match commands name t path with
  | .ok run => .ok run.report
  | .error error => .error ⟨name, path, error⟩

end Checker

/-! ### Commands -/

/-- The text in a file; what is no text is replaced. -/
def readableText (content : ByteArray) : String :=
  match String.fromUTF8? content with
  | some s => s
  | none =>
    String.ofList (content.toList.map fun b =>
      if b < 0x80 then Char.ofNat b.toNat else '\ufffd')

/-- Writes the content of the file. -/
def showFile (t : FileTree) (path : Path) : Run :=
  if path.text = "-" then ⟨"", "", true⟩
  else
    match t.read path with
    | .ok content => ⟨readableText content, "", true⟩
    | .error e => ⟨"", s!"cat: {path.text}: {e.message}\n", false⟩

/-- The commands that are always there. -/
def basicCommands : List (String × (FileTree → Path → Run)) :=
  [("cat", showFile), ("echo", fun _ path => ⟨path.text ++ "\n", "", true⟩),
    ("true", fun _ _ => ⟨"", "", true⟩), ("false", fun _ _ => ⟨"", "", false⟩)]

/-- The name of a command in one of the directories of the system. -/
def systemName (name : String) : String :=
  let chars := name.toList
  match Text.dropPrefix? "/bin/".toList chars <|> Text.dropPrefix? "/usr/bin/".toList chars with
  | some rest => String.ofList rest
  | none => name

/-- The basic commands. No file of the tree is a command. -/
def basic : Commands := fun name t path =>
  match basicCommands.lookup (systemName name) with
  | some run => .ok (run t path)
  | none =>
    if name.toList.contains '/' then
      match t.lookup ⟨name⟩ with
      | .ok _ => .error .permissionDenied
      | .error e => .error e
    else .error .notFound

end ForcingData.Compliance
