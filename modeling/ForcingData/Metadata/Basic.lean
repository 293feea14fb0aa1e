import ForcingData.Metadata.Rule

/-! # Metadata

The metadata of a file is made by `Metadata.ofAttributes?` alone, which checks it: the required
attributes are there, only known attributes with a value are kept, and no rule fails. `evolve?`
changes it and checks the outcome again. -/

namespace ForcingData

structure Metadata where
  attributes : Attributes
  cvVersion : CvVersion
deriving DecidableEq

namespace Metadata
open Text

inductive Error
  | missingAttributes (keys : List String)
  | unknownAttribute (key : String)
  | inconsistentWithCvs (failures : Findings)
deriving DecidableEq, Repr

def Error.message : Error → String
  | .missingAttributes keys => "Missing required attribute(s): " ++ ", ".intercalate keys
  | .unknownAttribute key => s!"Unknown attribute '{key}'"
  | .inconsistentWithCvs failures => "Metadata is inconsistent with the CVs:\n" ++ failures.text

/-- The known attributes that have a value. -/
def knownAttributes (attributes : Attributes) : Attributes :=
  attributes.filter fun key value => isKnown key && value ≠ ""

def ofAttributes? (attributes : Attributes) (cv : Vocabularies) : Except Error Metadata :=
  match missing attributes with
  | key :: keys => .error (.missingAttributes (key :: keys))
  | [] =>
    let known := knownAttributes attributes
    match Findings.failures (Rule.runAll known cv) with
    | f :: fs => .error (.inconsistentWithCvs (f :: fs))
    | [] => .ok ⟨known, cv.version⟩

/-- The metadata in attributes as a file holds them; blanks around values do not count. -/
def ofFile? (attributes : Attributes) (cv : Vocabularies) : Except Error Metadata :=
  ofAttributes? (attributes.map trim) cv

/-- Sets attributes, and removes those with an empty value. -/
def applyChanges (attributes changes : Attributes) : Attributes :=
  changes.toList.foldl (fun acc (key, value) =>
    if value = "" then acc.erase key else acc.insert key value) attributes

def evolve? (m : Metadata) (changes : Attributes) (cv : Vocabularies) : Except Error Metadata :=
  match changes.keys.find? (!isKnown ·) with
  | some key => .error (.unknownAttribute key)
  | none => ofAttributes? (applyChanges m.attributes changes) cv

/-- The findings of all rules, against vocabularies that may be other ones. -/
def validate (m : Metadata) (cv : Vocabularies) : Findings := Rule.runAll m.attributes cv

def get? (m : Metadata) (key : String) : Option String := m.attributes.get? key

/-- The value of a required attribute. -/
def required (m : Metadata) (key : String) : String := (m.get? key).getD ""

def trackingId? (m : Metadata) : Option String := m.get? "tracking_id"

/-- The names listed in the attribute. -/
def externalVariables (m : Metadata) : List String := words (m.required "external_variables")

def json (m : Metadata) : Json.Value :=
  .object [("attributes", .ofDict .text m.attributes),
    ("cv_version", m.cvVersion.json)]

def ofTree? (t : Json.Tree) : Option Metadata := do
  let r ← t.record? ["attributes", "cv_version"]
  return {
    attributes := ← r.required "attributes" (Json.Tree.dict? Json.Tree.string?)
    cvVersion := ← r.required "cv_version" CvVersion.ofTree? }

end Metadata
end ForcingData
