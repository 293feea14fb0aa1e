import ForcingData.Glob
import ForcingData.Json.Decode
import ForcingData.Vocabulary.Category

/-! # Entries of the vocabularies

Activities, licenses and sources, and how they are written. -/

namespace ForcingData
open Json

/-- An activity may restrict its sources by globs. -/
structure Activity where
  url : String
  longName : String
  patterns : List String
deriving DecidableEq, Repr, Inhabited

namespace Activity

def restricts (a : Activity) : Bool := !a.patterns.isEmpty

/-- Without patterns, every source is accepted. -/
def accepts (a : Activity) (sourceId : String) : Bool :=
  !a.restricts || a.patterns.any (Glob.accepts · sourceId)

def ofTree? (t : Tree) : Option Activity := do
  let r ← t.record? ["URL", "long_name", "source_id_patterns"]
  return {
    url := ← r.required "URL" Tree.string?
    longName := ← r.required "long_name" Tree.string?
    patterns := ← r.withDefault "source_id_patterns" [] (Tree.list? Tree.string?) }

end Activity

structure License where
  conditions : String
  url : String
  longName : String
deriving DecidableEq, Repr, Inhabited

def License.ofTree? (t : Tree) : Option License := do
  let r ← t.record? ["conditions", "license_url", "long_name"]
  return {
    conditions := ← r.required "conditions" Tree.string?
    url := ← r.required "license_url" Tree.string?
    longName := ← r.required "long_name" Tree.string? }

/-- A source fixes the values of some categories, and may say which activity it belongs to. -/
structure Source where
  activityId : Option String
  contact : String
  furtherInfoUrl : String
  institutionId : String
  licenseId : String
  mipEra : String
  sourceVersion : String
deriving DecidableEq, Repr, Inhabited

namespace Source

/-- The value that the source prescribes. -/
def determined? (s : Source) : Category → Option String
  | .activityId => s.activityId
  | .institutionId => some s.institutionId
  | .contact => some s.contact
  | .furtherInfoUrl => some s.furtherInfoUrl
  | .licenseId => some s.licenseId
  | .mipEra => some s.mipEra
  | .sourceVersion => some s.sourceVersion
  | _ => none

def ofTree? (t : Tree) : Option Source := do
  let r ← t.record? ["activity_id", "contact", "further_info_url", "institution_id", "license_id",
    "mip_era", "source_version"]
  return {
    activityId := ← r.withDefault "activity_id" none (Tree.option? Tree.string?)
    contact := ← r.required "contact" Tree.string?
    furtherInfoUrl := ← r.required "further_info_url" Tree.string?
    institutionId := ← r.required "institution_id" Tree.string?
    licenseId := ← r.required "license_id" Tree.string?
    mipEra := ← r.required "mip_era" Tree.string?
    sourceVersion := ← r.required "source_version" Tree.string? }

end Source
end ForcingData
