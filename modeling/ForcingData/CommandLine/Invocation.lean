import ForcingData.CommandLine.Arguments
import ForcingData.Database.Creation
import ForcingData.Settings.Basic

/-! # Invocations

What a command line asks for: perhaps a command, and values that have priority over the settings. -/

namespace ForcingData.CommandLine

def programName : String := "input4mips-validation"

/-! ### The grammar -/

/-- Options of every command. -/
def globalOptions : List Opt :=
  [{ name := "version", letter := some 'V' }, { name := "quiet", letter := some 'q' },
    { name := "verbose", letter := some 'v' }, { name := "cv-source", takes := .text },
    { name := "force-cv-download" }, { name := "n-workers", letter := some 'j', takes := .count },
    { name := "cf-checker", takes := .text },
    { name := "bnds-coord-indicator", takes := .text, repeats := true }]

/-- A command with the global options and its own. -/
def level (name : String) (options : List Opt) (operand : Option String)
    (commands : List Grammar) : Grammar where
  name := name
  options := globalOptions ++ options
  operand := operand
  exclusive := [("quiet", "verbose")]
  commands := commands

def globOption : Opt := { name := "rglob-input", takes := .text }
def allowWarningsOption : Opt := { name := "allow-cf-checker-warnings" }
def reportOption : Opt := { name := "report", takes := .path }
def databaseOption : Opt := { name := "db-dir", takes := .path, required := true }

def grammar : Grammar :=
  level programName [] none
    [level "validate-file"
        [allowWarningsOption, reportOption, { name := "write-in-drs", takes := .path }]
        (some "file") [],
      level "validate-tree"
        [globOption, allowWarningsOption, { name := "continue-on-error" }, reportOption]
        (some "tree-root") [],
      { level "db" [] none
        [level "create"
            [databaseOption, globOption, { name := "frequency-metadata-key", takes := .text },
              { name := "no-time-axis-frequency", takes := .text }]
            (some "tree-root") [],
          level "validate" [databaseOption] none []] with
        needsCommand := true }]

/-! ### Invocations -/

/-- The pattern of the files that are looked for. -/
def defaultGlob : String := "*.nc"

inductive Command
  | validateFile (file : Path) (allowWarnings : Bool) (report root : Option Path)
  | validateTree (root : Path) (glob : String) (allowWarnings continueOnError : Bool)
      (report : Option Path)
  | createDatabase (root : Path) (glob : String) (keys : FrequencyKeys) (directory : Path)
  | validateDatabase (directory : Path)
deriving DecidableEq, Repr

/-- Values that have priority over the settings. -/
structure Overrides where
  cvSource : Option String
  forceDownload : Bool
  workers : Option Nat
  cfChecker : Option String
  /-- None leave the setting as it is. -/
  indicators : List String
deriving DecidableEq, Repr, Inhabited

def Overrides.apply (o : Overrides) (s : Settings) : Settings :=
  { s with
    cvSource := o.cvSource <|> s.cvSource
    forceDownload := o.forceDownload || s.forceDownload
    workers := (o.workers.map (max 1 ·)).getD s.workers
    cfChecker := o.cfChecker.getD s.cfChecker
    indicators := if o.indicators.isEmpty then s.indicators else o.indicators }

structure Invocation where
  version : Bool
  quiet : Bool
  overrides : Overrides
  command : Option Command
deriving DecidableEq, Repr

namespace Arguments

def path? (a : Arguments) (name : String) : Option Path := (a.value? name).map Path.mk

def overrides (a : Arguments) : Overrides where
  cvSource := a.value? "cv-source"
  forceDownload := a.has "force-cv-download"
  workers := (a.value? "n-workers").bind fun n => Decimal.word? n.toList
  cfChecker := a.value? "cf-checker"
  indicators := a.values "bnds-coord-indicator"

def glob (a : Arguments) : String := (a.value? globOption.name).getD defaultGlob

def frequencyKeys (a : Arguments) : FrequencyKeys where
  key := (a.value? "frequency-metadata-key").getD FrequencyKeys.standard.key
  withoutTimeAxis :=
    (a.value? "no-time-axis-frequency").getD FrequencyKeys.standard.withoutTimeAxis

def command? (a : Arguments) : Option Command := do
  let allowWarnings := a.has allowWarningsOption.name
  let report := a.path? reportOption.name
  match a.commands with
  | ["validate-file"] =>
    return .validateFile ⟨← a.operand?⟩ allowWarnings report (a.path? "write-in-drs")
  | ["validate-tree"] =>
    return .validateTree ⟨← a.operand?⟩ a.glob allowWarnings (a.has "continue-on-error") report
  | ["db", "create"] =>
    return .createDatabase ⟨← a.operand?⟩ a.glob a.frequencyKeys (← a.path? databaseOption.name)
  | ["db", "validate"] => return .validateDatabase (← a.path? databaseOption.name)
  | _ => none

def invocation (a : Arguments) : Invocation where
  version := a.has "version"
  quiet := a.has "quiet"
  overrides := a.overrides
  command := a.command?

end Arguments

def Invocation.ofWords? (words : List String) : Except Stop Invocation :=
  (grammar.read words).map Arguments.invocation

end ForcingData.CommandLine
