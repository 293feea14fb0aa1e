import ForcingData.CommandLine.Invocation
import ForcingData.Settings.Source
import ForcingData.Validation.Placing
import ForcingData.Vocabulary.Loader

/-! # Runs

A run reads its settings, does what the command line asks for, and ends with an exit code. All that
it does to files is a `Disk` computation; what else it depends on is its `Surroundings`. -/

namespace ForcingData.CommandLine

structure Surroundings where
  environment : Environment
  network : Vocabularies.Network
  commands : Compliance.Commands
  /-- Which of the workers' possible moves is made. -/
  schedule : Nat → Nat
  now : Instant

/-- Why a run does not succeed. -/
inductive Failure
  | misuse (error : Misuse)
  | settings (error : Settings.Error)
  | vocabularies (error : Vocabularies.SourceError)
  | find (error : FindError)
  | file (error : FileError)
  | tree (error : TreeError)
  | placing (error : PlacingError)
  | database (error : DatabaseError)
  | report (path : Path) (error : OsError)
  | invalidFile (path : Path) (findings : Findings)
  | invalidTree (root : Path)
  | invalidEntries (paths : List Path)
  | noCommand
  | aborted (message : String)
deriving DecidableEq, Repr

namespace Failure

def message : Failure → String
  | .misuse e => e.message
  | .settings e => e.message
  | .vocabularies e => e.message
  | .find e => e.message
  | .file e => e.message
  | .tree e => e.message
  | .placing e => e.message
  | .database e => e.message
  | .report _ e => e.message
  | .invalidFile path findings => s!"'{path.text}' is invalid:\n{findings.text}"
  | .invalidTree root => s!"The tree below '{root.text}' holds invalid files"
  | .invalidEntries paths =>
    "Invalid database entries:\n" ++ "\n".intercalate (paths.map (·.text))
  | .noCommand => "No command given; see --help"
  | .aborted message => message

/-- A command line that is not understood is told apart from all that goes wrong later. -/
def exitCode : Failure → UInt8
  | .misuse _ => 2
  | .aborted _ => 101
  | _ => 1

end Failure

/-- How a run succeeds. -/
inductive Success
  | help (command : String)
  | version (quiet : Bool)
  | done
deriving DecidableEq, Repr

abbrev Run (α : Type) := Disk Failure α

section
variable (s : Surroundings) (settings : Settings)

def loadVocabularies : Run Vocabularies := do
  match CvSource.ofSetting? settings.cvSource with
  | .error e => throw (.vocabularies e)
  | .ok source =>
    (Vocabularies.load source s.network settings.cacheDirectory settings.forceDownload).withError
      .vocabularies

/-- Writes a report as JSON, if one is asked for. -/
def writeReport (path : Option Path) (json : Json.Value) : Run Unit :=
  match path with
  | none => pure ()
  | some path =>
    Disk.change fun t => (t.write path json.pretty.toUTF8).mapError (.report path)

def validationContext (cv : Vocabularies) (allowWarnings : Bool) : ValidationContext where
  cv := cv
  loader := headerLoader
  checker := Compliance.Checker.command s.commands settings.cfChecker
  indicators := settings.indicators
  allowWarnings := allowWarnings
  drsCheck := .fileName

def pattern (glob : String) : Run FilePattern :=
  Disk.ask fun _ => (FilePattern.ofGlob? glob).mapError .find

/-- The report is written even if the file is invalid; the file is placed only if it is valid. -/
def validateFile (file : Path) (allowWarnings : Bool) (report root : Option Path) : Run Unit := do
  let cv ← loadVocabularies s settings
  match (validationContext s settings cv allowWarnings).validateFile (← get) file with
  | .aborted message => throw (.aborted message)
  | .done (.error e) => throw (.file e)
  | .done (.ok v) =>
    writeReport report v.findings.json
    if v.findings.hasFailures then throw (.invalidFile file v.findings)
    match root with
    | none => return ()
    | some root =>
      let _ ← (v.place cv root copyFile).withError .placing

def validateTree (root : Path) (glob : String) (allowWarnings continueOnError : Bool)
    (report : Option Path) : Run Unit := do
  let pattern ← pattern glob
  let cv ← loadVocabularies s settings
  let context := validationContext s settings cv allowWarnings
  let r ← Disk.ask fun t =>
    (context.validateTree t root pattern continueOnError settings.workers s.schedule).mapError .tree
  writeReport report r.json
  if r.summary = .fail then throw (.invalidTree root)

/-- Makes the database directory, then looks for files and stores an entry for each. -/
def createDatabase (root : Path) (glob : String) (keys : FrequencyKeys) (directory : Path) :
    Run Unit := do
  let pattern ← pattern glob
  let cv ← loadVocabularies s settings
  let db ← (Database.create directory).withError .database
  let paths ← Disk.ask fun t => (t.findFiles root pattern).mapError .find
  let context : EntryContext :=
    { cv, frequencyKeys := keys, indicators := settings.indicators, loader := headerLoader,
      now := s.now }
  let _ ← (context.writeEntries db paths settings.workers s.schedule).withError .database
  let _ ← Disk.ask fun t => (db.all t).mapError .database

/-- Checks and stores all entries, also if some are invalid. -/
def validateDatabase (directory : Path) : Run Unit := do
  let db ← Disk.ask fun t => (Database.openAt t directory).mapError .database
  let entries ← Disk.ask fun t =>
    (db.validate t settings.workers s.schedule s.now).mapError .database
  let _ ← (db.upsertAll ∅ entries).withError .database
  match (entries.filter (·.status = .failed)).map (·.path) with
  | [] => return ()
  | failed => throw (.invalidEntries failed)

def runCommand : Option Command → Run Unit
  | none => throw .noCommand
  | some (.validateFile file allowWarnings report root) =>
    validateFile s settings file allowWarnings report root
  | some (.validateTree root glob allowWarnings continueOnError report) =>
    validateTree s settings root glob allowWarnings continueOnError report
  | some (.createDatabase root glob keys directory) =>
    createDatabase s settings root glob keys directory
  | some (.validateDatabase directory) => validateDatabase s settings directory

end

/-- Does what is asked for; the version is told before anything is read. -/
def Invocation.run (s : Surroundings) (i : Invocation) : Run Success := do
  if i.version then return .version i.quiet
  let settings ← Disk.ask fun t => (Settings.load? t.read? s.environment).mapError .settings
  runCommand s (i.overrides.apply settings) i.command
  return .done

/-- A run of the program with these words after its name. -/
def run (s : Surroundings) (words : List String) : Run Success :=
  match Invocation.ofWords? words with
  | .error (.help command) => return .help command
  | .error (.misuse e) => throw (.misuse e)
  | .ok i => i.run s

def exitCode : Except Failure Success → UInt8
  | .ok _ => 0
  | .error e => e.exitCode

end ForcingData.CommandLine
