import ForcingData.Drs.Basic
import ForcingData.Finding
import ForcingData.Url.Basic
import ForcingData.Vocabulary.Entry

/-! # The controlled vocabularies

`Vocabularies` say which values attributes may have, which values go together, and how files are
named. `validateValue` checks one value, `validateCross` two of them against each other, and
`selfCheck` the vocabularies against themselves. -/

namespace ForcingData
open Text

/-- What identifies the content of vocabularies: their source, and a hash over all their files. -/
structure CvVersion where
  source : String
  fingerprint : String
deriving DecidableEq, Repr, Inhabited

namespace CvVersion

/-- The characters within the first `n` bytes, if a character ends there. -/
def takeBytes? : Nat → List Char → Option (List Char)
  | 0, _ => some []
  | _ + 1, [] => none
  | n + 1, c :: cs =>
    if c.utf8Size ≤ n + 1 then (takeBytes? (n + 1 - c.utf8Size) cs).map (c :: ·) else none
termination_by _ cs => cs.length

/-- The source, and the first twelve bytes of the fingerprint. -/
def text (v : CvVersion) : String :=
  let short := (takeBytes? 12 v.fingerprint.toList).map String.ofList
  s!"{v.source}@{short.getD v.fingerprint}"

def json (v : CvVersion) : Json.Value :=
  .object [("source", .text v.source), ("fingerprint", .text v.fingerprint)]

def ofTree? (t : Json.Tree) : Option CvVersion := do
  let r ← t.record? ["source", "fingerprint"]
  return {
    source := ← r.required "source" Json.Tree.string?
    fingerprint := ← r.required "fingerprint" Json.Tree.string? }

end CvVersion

/-- A set of texts. -/
abbrev Names := Dict String Unit

def Names.ofList (l : List String) : Names := Dict.ofList (l.map (·, ()))

structure Vocabularies where
  version : CvVersion
  activities : Dict String Activity
  institutions : Names
  licenses : Dict String License
  sources : Dict String Source
  /-- The plain sets of values; a category without one is not constrained. -/
  simple : List (Category × Names)
  drs : Drs
  /-- A directory and a file name that follow the templates. -/
  example? : Option (String × String)

namespace Vocabularies

/-- The permitted values, sorted; `none` if there is no constraint. -/
def values? (cv : Vocabularies) (c : Category) : Option Names :=
  match c with
  | .activityId => some (cv.activities.map fun _ => ())
  | .sourceId => some (cv.sources.map fun _ => ())
  | .institutionId => some cv.institutions
  | .licenseId => some (cv.licenses.map fun _ => ())
  | .contact | .furtherInfoUrl | .sourceVersion => none
  | c => cv.simple.lookup c

/-! ### Single values -/

def validateValue (cv : Vocabularies) (c : Category) (value : String) : Finding :=
  match cv.values? c with
  | none => .pass c.valueRule s!"{c.name}={quoted value} is not constrained by the CVs"
  | some values =>
    if values.contains value then .pass c.valueRule s!"{c.name}={quoted value} is in the CVs"
    else
      .fail c.valueRule .notInCvs
        (s!"Received {c.name}={quoted value}. This is not in the available CV values: "
          ++ s!"{quotedSet values.keys}. CVs loaded from: {cv.version.text}")

/-! ### Two values -/

def inconsistent (rule activityId sourceId reason : String) : Finding :=
  .fail rule .valueInconsistentWithCvs
    (s!"activity_id={quoted activityId} and source_id={quoted sourceId} are inconsistent with the "
      ++ s!"CVs: {reason}")

/-- Both have to be known, and to accept each other. -/
def checkActivitySource (cv : Vocabularies) (rule activityId sourceId : String) : Finding :=
  let inconsistent := inconsistent rule activityId sourceId
  match cv.activities.get? activityId, cv.sources.get? sourceId with
  | none, _ => inconsistent s!"activity_id={quoted activityId} is not in the CVs"
  | some _, none => inconsistent s!"source_id={quoted sourceId} is not in the CVs"
  | some activity, some source =>
    match source.activityId.filter (· ≠ activityId) with
    | some declared =>
      inconsistent
        s!"For source_id={quoted sourceId}, we should have activity_id={quoted declared}"
    | none =>
      if activity.accepts sourceId then
        .pass rule
          s!"activity_id={quoted activityId} and source_id={quoted sourceId} are consistent"
      else
        inconsistent (s!"activity_id={quoted activityId} requires source_id to match one of "
          ++ quotedList activity.patterns)

/-- The value has to be the one that the source prescribes. -/
def checkSourceDetermined (cv : Vocabularies) (rule sourceId : String) (c : Category)
    (value : String) : Finding :=
  match cv.sources.get? sourceId with
  | none =>
    .fail rule .valueInconsistentWithCvs
      (s!"source_id={quoted sourceId} is not in the CVs, so {c.name}={quoted value} can not be "
        ++ "consistent with it")
  | some source =>
    match (source.determined? c).filter (· ≠ value) with
    | some expected =>
      .fail rule .valueInconsistentWithCvs
        (s!"For source_id={quoted sourceId}, we should have {c.name}={quoted expected}. "
          ++ s!"Received {c.name}={quoted value}")
    | none =>
      .pass rule s!"{c.name}={quoted value} is consistent with source_id={quoted sourceId}"

/-- The order of the two pairs does not matter; unrelated categories pass. -/
def validateCross (cv : Vocabularies) (a : Category) (valueA : String) (b : Category)
    (valueB : String) : Finding :=
  let rule := a.crossRule b
  match a, b with
  | .activityId, .sourceId => cv.checkActivitySource rule valueA valueB
  | .sourceId, .activityId => cv.checkActivitySource rule valueB valueA
  | a, b =>
    if a = .sourceId && b.isDetermined then cv.checkSourceDetermined rule valueA b valueB
    else if b = .sourceId && a.isDetermined then cv.checkSourceDetermined rule valueB a valueA
    else
      .pass rule s!"The CVs define no compound constraint between {a.name} and {b.name}"

/-! ### Self check -/

def activityProblems (id : String) (a : Activity) : List String :=
  match Url.parse? a.url with
  | .ok _ => []
  | .error _ => [s!"activity_id {quoted id} has an invalid URL: {quoted a.url}"]

/-- The values of a source that the vocabularies do not know. -/
def sourceProblems (cv : Vocabularies) (id : String) (s : Source) : List String :=
  let unknown (c : Category) (value : String) (known : Bool) : List String :=
    if known then [] else [s!"source_id {quoted id} has unknown {c.name} {quoted value}"]
  unknown .institutionId s.institutionId (cv.institutions.contains s.institutionId)
    ++ unknown .licenseId s.licenseId (cv.licenses.contains s.licenseId)
    ++ (match s.activityId with
      | some a => unknown .activityId a (cv.activities.contains a)
      | none => [])
    ++ (match cv.simple.lookup .mipEra with
      | some eras => unknown .mipEra s.mipEra (eras.contains s.mipEra)
      | none => [])

def exampleProblems (cv : Vocabularies) : List String :=
  match cv.example? with
  | none => []
  | some (directory, fileName) =>
    match cv.drs.parsePath ((Path.mk directory).join ⟨fileName⟩) with
    | .ok _ => []
    | .error e => [s!"The DRS example does not fit the DRS templates: {e.message}"]

/-- One message for each problem. -/
def selfCheck (cv : Vocabularies) : List String :=
  cv.activities.toList.flatMap (fun e => activityProblems e.1 e.2)
    ++ cv.sources.toList.flatMap (fun e => cv.sourceProblems e.1 e.2)
    ++ cv.exampleProblems

end Vocabularies
end ForcingData
