import ForcingData.Dataset.Basic
import ForcingData.Json.Decode
import ForcingData.Json.Encode
import ForcingData.Path

/-! # Settings

What can be configured. A draft holds the values that were given; `Draft.finish?` checks them and
puts defaults for the others. -/

namespace ForcingData
open Json

/-- The values of environment variables. -/
abbrev Environment := Dict String String

structure Settings where
  userAgent : String
  cvSource : Option String
  forceDownload : Bool
  cacheDirectory : Path
  retries : Nat
  /-- For each request, in milliseconds. -/
  timeout : Nat
  workers : Nat
  cfChecker : String
  indicators : List String
deriving DecidableEq, Repr

namespace Settings

def json (s : Settings) : Value :=
  .object [("user_agent", .text s.userAgent), ("input4mips_cv_source", .ofOption .text s.cvSource),
    ("input4mips_cv_source_force_download", .bool s.forceDownload),
    ("cache_dir", .text s.cacheDirectory.text), ("retries", .nat s.retries),
    ("timeout", .nat s.timeout), ("n_workers", .nat s.workers),
    ("cf_checker_command", .text s.cfChecker), ("bnds_coord_indicators", .texts s.indicators)]

inductive Error
  | invalidValue (key reason : String)
  /-- The settings can not be read. -/
  | unreadable
deriving DecidableEq, Repr

def Error.message : Error → String
  | .invalidValue key reason => s!"Invalid value for setting '{key}': {reason}"
  | .unreadable => "Failed to load the basic/low-level configuration data"

def defaultUserAgent : String :=
  "input4mips-validation github.com/climate-resource/input4mips_validation"
def defaultRetries : Nat := 3
def defaultTimeout : Nat := 10000
def defaultCfChecker : String := "cfchecks"
def cacheName : Path := ⟨"input4mips-validation"⟩
def fallbackCache : Path := ⟨".input4mips-validation-cache"⟩

/-- Below the cache directory of the user, or hidden where there is none. -/
def defaultCache (env : Environment) : Path :=
  match env.get? "XDG_CACHE_HOME", env.get? "HOME" with
  | some cache, _ => (Path.mk cache).join cacheName
  | none, some home => ((Path.mk home).join ⟨".cache"⟩).join cacheName
  | none, none => fallbackCache

/-- The values that were given. -/
structure Draft where
  userAgent : Option String
  cvSource : Option String
  forceDownload : Bool
  cacheDirectory : Option String
  retries : Option Nat
  timeout : Option Nat
  workers : Option Nat
  cfChecker : Option String
  indicators : Option (List String)
deriving DecidableEq, Repr

namespace Draft

def fieldNames : List String :=
  ["user_agent", "input4mips_cv_source", "input4mips_cv_source_force_download", "cache_dir",
    "retries", "timeout", "n_workers", "cf_checker_command", "bnds_coord_indicators"]

def ofTree? (t : Tree) : Option Draft := do
  let r ← t.record? fieldNames
  let optional {α : Type} (name : String) (item? : Tree → Option α) : Option (Option α) :=
    r.withDefault name none (Tree.option? item?)
  return {
    userAgent := ← optional "user_agent" Tree.string?
    cvSource := ← optional "input4mips_cv_source" Tree.string?
    forceDownload := ← r.withDefault "input4mips_cv_source_force_download" false Tree.bool?
    cacheDirectory := ← optional "cache_dir" Tree.string?
    retries := ← optional "retries" (Tree.nat? (Word.greatest 32))
    timeout := ← optional "timeout" (Tree.nat? (Word.greatest 64))
    workers := ← optional "n_workers" (Tree.nat? (Word.greatest 64))
    cfChecker := ← optional "cf_checker_command" Tree.string?
    indicators := ← optional "bnds_coord_indicators" (Tree.list? Tree.string?) }

def isVoid (s : String) : Bool := Text.trim s = ""

/-- A source of blanks alone is no source. -/
def finish? (d : Draft) (env : Environment) : Except Error Settings :=
  if d.workers = some 0 then .error (.invalidValue "n_workers" "needs to be at least 1")
  else if d.cfChecker.any isVoid then
    .error (.invalidValue "cf_checker_command" "must not be empty")
  else
    .ok {
      userAgent := d.userAgent.getD defaultUserAgent
      cvSource := d.cvSource.filter (!isVoid ·)
      forceDownload := d.forceDownload
      cacheDirectory := (d.cacheDirectory.map Path.mk).getD (defaultCache env)
      retries := d.retries.getD defaultRetries
      timeout := d.timeout.getD defaultTimeout
      workers := d.workers.getD 1
      cfChecker := d.cfChecker.getD defaultCfChecker
      indicators := d.indicators.getD Dataset.defaultIndicators }

end Draft
end Settings
end ForcingData
