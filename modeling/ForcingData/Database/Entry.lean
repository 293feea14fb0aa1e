import ForcingData.Metadata.Basic
import ForcingData.Path
import ForcingData.Time.Parser

/-! # Database entries

What the database records of one file. A record is never changed in place: a new state of the file
becomes the next revision of its entry, and the state before it goes to the history. -/

namespace ForcingData
open Json

inductive EntryStatus
  | notValidated
  | passed
  | failed
deriving DecidableEq, Repr, Inhabited

namespace EntryStatus

def all : List EntryStatus := [.notValidated, .passed, .failed]

def name : EntryStatus → String
  | .notValidated => "not_validated"
  | .passed => "passed"
  | .failed => "failed"

/-- Warnings do not fail an entry. -/
def ofStatus : Status → EntryStatus
  | .pass | .warning => .passed
  | .fail => .failed

def ofTree? : Tree → Option EntryStatus := Tree.choice? (all.map fun s => (s.name, s))

end EntryStatus

/-- An earlier state of an entry. -/
structure HistoryItem where
  revision : UInt32
  timestamp : Instant
  status : EntryStatus
  sha256 : Option String
  cvVersion : Option CvVersion
  findings : Findings
deriving DecidableEq

structure Entry where
  path : Path
  sha256 : Option String
  masterId : Option String
  timestamp : Instant
  status : EntryStatus
  /-- Present if the file holds valid metadata. -/
  metadata : Option Metadata
  /-- The attributes found in the file. -/
  attributes : Attributes
  cvVersion : Option CvVersion
  findings : Findings
  history : List HistoryItem
  revision : UInt32
  doi : Option String
  comment : Option String
  publicationStatus : Option String
deriving DecidableEq

namespace Entry

/-- The first record of a file that nothing is known of. -/
def blank (path : Path) (now : Instant) : Entry where
  path := path
  sha256 := none
  masterId := none
  timestamp := now
  status := .notValidated
  metadata := none
  attributes := ∅
  cvVersion := none
  findings := []
  history := []
  revision := 0
  doi := none
  comment := none
  publicationStatus := none

/-- The record of a file that could not be processed. -/
def failed (path : Path) (f : Finding) (now : Instant) : Entry :=
  { blank path now with status := .failed, findings := [f] }

def trackingId? (e : Entry) : Option String :=
  (e.metadata.bind Metadata.trackingId?) <|> e.attributes.get? "tracking_id"

/-- Nothing that calls for a new revision has changed. -/
def sameState (a b : Entry) : Bool := a.status = b.status && a.sha256 = b.sha256

/-- Equal in all fields, paths being compared by their parts. -/
def same (a b : Entry) : Bool := a.path.same b.path && { a with path := b.path } = b

def historyItem (e : Entry) : HistoryItem :=
  ⟨e.revision, e.timestamp, e.status, e.sha256, e.cvVersion, e.findings⟩

/-- The next revision after `previous`. What it does not say about the publication stays. -/
def revise (e previous : Entry) : Entry :=
  { e with
    revision := previous.revision + 1
    history := previous.history ++ [previous.historyItem]
    doi := e.doi <|> previous.doi
    comment := e.comment <|> previous.comment
    publicationStatus := e.publicationStatus <|> previous.publicationStatus }

/-- The entry after a validation. -/
def withValidation (e : Entry) (findings : Findings) (now : Instant) : Entry :=
  { e with status := .ofStatus findings.summary, findings, timestamp := now }

end Entry

/-! ### As JSON -/

def instantUtc? (t : Tree) : Option Instant := t.string?.bind Instant.parseUtc?

namespace HistoryItem

def json (h : HistoryItem) : Value :=
  .object [("revision", .nat h.revision.toNat), ("timestamp", .text h.timestamp.utcText),
    ("validation_status", .text h.status.name), ("sha256", .ofOption .text h.sha256),
    ("cv_version", .ofOption CvVersion.json h.cvVersion),
    ("validation_results", h.findings.json)]

def ofTree? (t : Tree) : Option HistoryItem := do
  let r ← t.record? ["revision", "timestamp", "validation_status", "sha256", "cv_version",
    "validation_results"]
  return {
    revision := ← r.required "revision" Tree.uint32?
    timestamp := ← r.required "timestamp" instantUtc?
    status := ← r.required "validation_status" EntryStatus.ofTree?
    sha256 := ← r.optional "sha256" Tree.string?
    cvVersion := ← r.withDefault "cv_version" none (Tree.option? CvVersion.ofTree?)
    findings := ← r.withDefault "validation_results" [] Findings.ofTree? }

end HistoryItem

namespace Entry

def json (e : Entry) : Value :=
  .object [("filepath", .text e.path.text), ("sha256", .ofOption .text e.sha256),
    ("master_id", .ofOption .text e.masterId), ("timestamp", .text e.timestamp.utcText),
    ("validation_status", .text e.status.name), ("metadata", .ofOption Metadata.json e.metadata),
    ("attributes", .ofDict .text e.attributes),
    ("cv_version", .ofOption CvVersion.json e.cvVersion),
    ("validation_results", e.findings.json),
    ("history", .array (e.history.map HistoryItem.json)), ("revision", .nat e.revision.toNat),
    ("doi", .ofOption .text e.doi), ("comment", .ofOption .text e.comment),
    ("publication_status", .ofOption .text e.publicationStatus)]

def ofTree? (t : Tree) : Option Entry := do
  let r ← t.record? ["filepath", "sha256", "master_id", "timestamp", "validation_status",
    "metadata", "attributes", "cv_version", "validation_results", "history", "revision", "doi",
    "comment", "publication_status"]
  return {
    path := ⟨← r.required "filepath" Tree.string?⟩
    sha256 := ← r.optional "sha256" Tree.string?
    masterId := ← r.optional "master_id" Tree.string?
    timestamp := ← r.required "timestamp" instantUtc?
    status := ← r.required "validation_status" EntryStatus.ofTree?
    metadata := ← r.optional "metadata" Metadata.ofTree?
    attributes := ← r.withDefault "attributes" ∅ (Tree.dict? Tree.string?)
    cvVersion := ← r.optional "cv_version" CvVersion.ofTree?
    findings := ← r.withDefault "validation_results" [] Findings.ofTree?
    history := ← r.withDefault "history" [] (Tree.list? HistoryItem.ofTree?)
    revision := ← r.withDefault "revision" 0 Tree.uint32?
    doi := ← r.optional "doi" Tree.string?
    comment := ← r.optional "comment" Tree.string?
    publicationStatus := ← r.optional "publication_status" Tree.string? }

end Entry
end ForcingData
