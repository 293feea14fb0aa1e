import ForcingData.Database.Check
import ForcingData.Tree.Report
import ForcingData.Validation.Tree

/-! # Entries from files

An entry is made from a file: its attributes, completed from its path and from its time axis, what
is found about them, and its hash. A file that can not be processed has a failed entry and stops
nothing. Entries are made by a pool of workers and stored as they come. -/

namespace ForcingData
open Database

inductive EntryError
  | load (error : LoadError)
  | hash (path : Path) (error : OsError)
deriving DecidableEq, Repr

def EntryError.message : EntryError → String
  | .load e => e.message
  | .hash path e => s!"Failed to hash '{path.text}': {e.message}"

/-- The attribute with the frequency, and the frequency of a file without a time axis. -/
structure FrequencyKeys where
  key : String
  withoutTimeAxis : String
deriving DecidableEq, Repr

def FrequencyKeys.standard : FrequencyKeys := ⟨"frequency", "fx"⟩

/-- All that it takes to make entries. -/
structure EntryContext where
  cv : Vocabularies
  frequencyKeys : FrequencyKeys
  indicators : List String
  loader : Loader
  now : Instant

namespace EntryContext

/-- Adds the values in the path of a file; the attributes that are there stay. -/
def addFromPath (c : EntryContext) (path : Path) (attributes : Attributes) : Attributes :=
  match c.cv.drs.parsePath path with
  | .error _ => attributes
  | .ok fields =>
    fields.toList.foldl (fun acc (key, value) =>
      if acc.contains key then acc else acc.insert key value) attributes

/-- Sets the frequency if there is none: from another attribute, or from the time axis. -/
def settleFrequency (c : EntryContext) (d : Dataset) (attributes : Attributes) : Attributes :=
  if attributes.contains "frequency" then attributes
  else
    let found := match attributes.get? c.frequencyKeys.key, d.time with
      | some value, _ => some value
      | none, none => some c.frequencyKeys.withoutTimeAxis
      | none, some _ => (Frequency.infer? d.time).map Frequency.name
    match found with
    | some frequency => attributes.insert "frequency" frequency
    | none => attributes

/-- The attributes of an entry; blanks around values do not count. -/
def complete (c : EntryContext) (path : Path) (d : Dataset) : Attributes :=
  c.settleFrequency d (c.addFromPath path (d.textAttributes.map Text.trim))

/-- The entry for a dataset at a path, without a hash. -/
def ofDataset (c : EntryContext) (path : Path) (d : Dataset) : Outcome Entry := do
  let attributes := c.complete path d
  let consistency ← Consistency.validate d attributes c.indicators
  let findings :=
    Findings.withTarget (Rule.validateAttributes attributes c.cv ++ consistency) path.text
  return {
    Entry.blank path c.now with
    masterId := (c.cv.drs.masterId attributes).toOption
    status := .ofStatus findings.summary
    metadata := (Metadata.ofFile? attributes c.cv).toOption
    attributes
    cvVersion := some c.cv.version
    findings }

/-- The entry for a file. -/
def createEntry (c : EntryContext) (t : FileTree) (path : Path) :
    Outcome (Except EntryError Entry) := do
  match ← c.loader t path with
  | .error e => return .error (.load e)
  | .ok d =>
    let e ← c.ofDataset path d
    match hashOfFile t path with
    | .error error => return .error (.hash path error)
    | .ok hash => return .ok { e with sha256 := some hash }

/-! ### Files that can not be processed -/

def unreadableEntry (c : EntryContext) (path : Path) (reason : String) : Entry :=
  .failed path (TreeReport.unreadable path reason) c.now

def createOrFail (c : EntryContext) (t : FileTree) (path : Path) : Outcome Entry := do
  match ← c.createEntry t path with
  | .ok e => return e
  | .error e => return c.unreadableEntry path e.message

def recoverEntry (c : EntryContext) (path : Path) (message : String) : Entry :=
  c.unreadableEntry path s!"Processing the file panicked: {message}"

/-! ### Many files -/

/-- The entries for some files, by path. -/
def createEntries (c : EntryContext) (t : FileTree) (paths : List Path) (workers : Nat)
    (schedule : Nat → Nat) : List Entry :=
  sortByPath
    (Pool.collect workers schedule (c.createOrFail t) c.recoverEntry (fun _ => false) paths).1

/-- What the workers and the storing of entries share. -/
structure Progress where
  tree : FileTree
  counts : Counts
  failure : Option DatabaseError

/-- Stores one entry, unless storing has failed before; does the run stop? -/
def Progress.store (db : Database) (p : Progress) (e : Entry) : Progress × Bool :=
  if p.failure.isSome then (p, true)
  else
    match (db.upsert e).on p.tree with
    | (.ok stored, tree) => (⟨tree, p.counts.add stored, none⟩, false)
    | (.error failure, tree) => (⟨tree, p.counts, some failure⟩, true)

/-- Makes entries and stores each as it comes. A failure to store ends the run; what was stored
before it stays. -/
def writeEntries (c : EntryContext) (db : Database) (paths : List Path) (workers : Nat)
    (schedule : Nat → Nat) : Disk DatabaseError Counts := fun t =>
  let job : Pool.Job Progress Path Entry :=
    ⟨fun p path => c.createOrFail p.tree path, c.recoverEntry, Progress.store db⟩
  let (last, _) := Pool.run workers schedule job paths ⟨t, ∅, none⟩
  match last.failure with
  | some failure => (.error failure, last.tree)
  | none => (.ok last.counts, last.tree)

end EntryContext
end ForcingData
