import ForcingData.Database.Basic
import ForcingData.Pool.Basic
import ForcingData.Text.Quoted

/-! # Validating a database

Every entry is checked again: the file must still have the recorded hash, and no other entry the
same tracking id. The findings of earlier checks are replaced, all others stay. -/

namespace ForcingData.Database
open Text

def hashRule : String := "database.sha256_matches"
def uniqueRule : String := "database.tracking_id_unique"

/-- The hash of the content of a file. -/
def hashOfFile (t : FileTree) (path : Path) : Except OsError String :=
  (t.read path).map Hash.sha256Hex

def checkHash (t : FileTree) (e : Entry) : Finding :=
  let finding : Finding := match e.sha256, hashOfFile t e.path with
    | _, .error error => .fail hashRule .unreadable s!"Could not hash the file: {error.message}"
    | none, .ok _ => .fail hashRule .hashMismatch "The entry records no sha256"
    | some recorded, .ok actual =>
      if recorded = actual then .pass hashRule "sha256 matches the file"
      else
        .fail hashRule .hashMismatch
          s!"The entry records sha256={recorded}, but the file has {actual}"
  finding.withTarget e.path.text

/-- The paths of the entries with this tracking id. -/
def owners (es : List Entry) (id : String) : List Path :=
  (es.filter (·.trackingId? = some id)).map (·.path)

def checkTrackingId (es : List Entry) (e : Entry) : Finding :=
  let finding : Finding := match e.trackingId? with
    | none => .pass uniqueRule "No tracking_id to compare"
    | some id =>
      let paths := owners es id
      if 1 < paths.length then
        .fail uniqueRule .notUnique
          s!"tracking_id={quoted id} is shared by {quotedList (paths.map (·.text))}"
      else .pass uniqueRule "tracking_id is unique in the database"
  finding.withTarget e.path.text

/-- The findings that are not made here. -/
def otherFindings (e : Entry) : Findings :=
  e.findings.filter fun f => f.rule ≠ hashRule && f.rule ≠ uniqueRule

/-- The entry after all checks. -/
def checkEntry (t : FileTree) (es : List Entry) (now : Instant) (e : Entry) : Entry :=
  e.withValidation (otherFindings e ++ [checkHash t e, checkTrackingId es e]) now

/-- The entry after a check that was aborted. -/
def abortedEntry (now : Instant) (e : Entry) (message : String) : Entry :=
  let finding := Finding.fail hashRule .ruleError s!"Checking the entry panicked: {message}"
  e.withValidation (otherFindings e ++ [finding.withTarget e.path.text]) now

/-- The entries after all checks, by path. -/
def validateEntries (t : FileTree) (es : List Entry) (workers : Nat) (schedule : Nat → Nat)
    (now : Instant) : List Entry :=
  let work (e : Entry) : Outcome Entry := .done (checkEntry t es now e)
  sortByPath (Pool.collect workers schedule work (abortedEntry now) (fun _ => false) es).1

/-- All entries of the database after the checks; nothing is stored. -/
def validate (db : Database) (t : FileTree) (workers : Nat) (schedule : Nat → Nat)
    (now : Instant) : Except DatabaseError (List Entry) := do
  return validateEntries t (← db.all t) workers schedule now

end ForcingData.Database
