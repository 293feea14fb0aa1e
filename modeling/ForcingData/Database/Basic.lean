import ForcingData.Database.Entry
import ForcingData.FileTree.Disk
import ForcingData.Hash.Sha256
import ForcingData.Json.Printer

/-! # The database

A directory with a record for every file, named by the hash of the path of the file. `upsert` stores
an entry, as the next revision if there is one for the same path and the state has changed; a record
is replaced as a whole or not at all. -/

namespace ForcingData

inductive DatabaseError
  | alreadyExists (directory : Path)
  | notFound (directory : Path)
  | inaccessible (path : Path) (error : OsError)
  | malformed (record : Path)
deriving DecidableEq, Repr

def DatabaseError.message : DatabaseError → String
  | .alreadyExists directory => s!"The database directory '{directory.text}' already exists"
  | .notFound directory => s!"The database directory '{directory.text}' does not exist"
  | .inaccessible path e => s!"Failed to access '{path.text}': {e.message}"
  | .malformed record =>
    s!"Failed to (de-)serialize the entry '{record.text}': not of the expected form"

/-- What storing an entry did. -/
inductive Stored
  | created
  | updated
  | unchanged
deriving DecidableEq, Repr

def Stored.name : Stored → String
  | .created => "created"
  | .updated => "updated"
  | .unchanged => "unchanged"

/-- How often something was done. -/
abbrev Counts := Dict String Nat

def Counts.add (counts : Counts) (s : Stored) : Counts :=
  counts.insert s.name ((counts.get? s.name).getD 0 + 1)

def Counts.json : Counts → Json.Value := .ofDict .nat

structure Database where
  directory : Path
deriving DecidableEq, Repr

namespace Database

def openAt (t : FileTree) (directory : Path) : Except DatabaseError Database :=
  if t.isDirectory directory then .ok ⟨directory⟩ else .error (.notFound directory)

/-- Makes an empty database where there is nothing. -/
def create (directory : Path) : Disk DatabaseError Database := do
  if (← get).exists? directory then throw (.alreadyExists directory)
  (FileTree.createDirectories directory).withError (.inaccessible directory)
  return ⟨directory⟩

/-! ### Records -/

/-- The name of the record for a path; every spelling of a path has its own. -/
def recordName (path : Path) : String := Hash.sha256Hex path.text.toUTF8 ++ ".json"

def recordPath (db : Database) (path : Path) : Path := db.directory.join ⟨recordName path⟩

def readRecord (record : Path) (t : FileTree) : Except DatabaseError Entry :=
  match t.read record with
  | .error e => .error (.inaccessible record e)
  | .ok content =>
    match (Json.Tree.ofBytes? content).bind Entry.ofTree? with
    | some e => .ok e
    | none => .error (.malformed record)

def recordContent (e : Entry) : ByteArray := e.json.pretty.toUTF8

def writeRecord (db : Database) (e : Entry) : Disk DatabaseError Unit :=
  let record := db.recordPath e.path
  (FileTree.replace record (recordContent e)).withError (.inaccessible record)

/-! ### Entries -/

/-- The entry for a path. -/
def get? (db : Database) (t : FileTree) (path : Path) : Except DatabaseError (Option Entry) :=
  let record := db.recordPath path
  if t.exists? record then (readRecord record t).map some else .ok none

def entryLe (a b : Entry) : Bool := compare a.path b.path != .gt

def sortByPath (es : List Entry) : List Entry := es.mergeSort entryLe

/-- The records in the directory; other files are passed over. -/
def records (db : Database) (names : List String) : List Path :=
  (names.map fun name => db.directory.join ⟨name⟩).filter (·.extension? = some "json")

/-- All entries, by path. -/
def all (db : Database) (t : FileTree) : Except DatabaseError (List Entry) := do
  let names ← (t.names db.directory).mapError (.inaccessible db.directory)
  return sortByPath (← (db.records names).mapM fun record => readRecord record t)

def upsert (db : Database) (e : Entry) : Disk DatabaseError Stored := do
  match ← Disk.ask fun t => db.get? t e.path with
  | none =>
    db.writeRecord e
    return .created
  | some existing =>
    if existing.sameState e then return .unchanged
    else
      db.writeRecord (e.revise existing)
      return .updated

/-- Stores entries up to the first failure. -/
def upsertAll (db : Database) (counts : Counts) : List Entry → Disk DatabaseError Counts
  | [] => return counts
  | e :: rest => do
    let stored ← db.upsert e
    db.upsertAll (counts.add stored) rest

end Database
end ForcingData
