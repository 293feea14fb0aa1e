import ForcingData.Dataset.Consistency
import ForcingData.Metadata.Basic
import ForcingData.Metadata.KnownVariables

/-! # Inferring metadata

A producer has to tell little about a dataset; `Inferred.ofMinimum` finds the rest. Every value
comes from the first of these that has one: what was told, the attributes of the dataset, the path
of the file, and at last what follows from the data and the vocabularies. Where sources disagree,
the value that is dropped is reported with a warning. -/

namespace ForcingData
open Text

inductive InferenceError
  | missingRequiredField (field reason : String)
  | ambiguous (field : String) (candidates : List String)
  | metadata (error : Metadata.Error)
deriving DecidableEq, Repr

def InferenceError.message : InferenceError → String
  | .missingRequiredField field reason => s!"Could not determine '{field}': {reason}"
  | .ambiguous field candidates =>
    s!"More than one value is possible for '{field}': {quotedList candidates}"
  | .metadata e => e.message

/-- What a producer has to tell, and what else is set explicitly. -/
structure Minimum where
  gridLabel : String
  nominalResolution : String
  sourceId : String
  targetMip : String
  extra : Attributes

/-- All that was told; the four fixed fields win. -/
def Minimum.attributes (m : Minimum) : Attributes :=
  let withGrid := m.extra.insert "grid_label" m.gridLabel
  let withResolution := withGrid.insert "nominal_resolution" m.nominalResolution
  (withResolution.insert "source_id" m.sourceId).insert "target_mip" m.targetMip

/-- Where a value comes from. -/
inductive Origin
  | arguments
  | content
  | fileName
  | inference
deriving DecidableEq, Repr

def Origin.text : Origin → String
  | .arguments => "the explicit arguments"
  | .content => "the file content"
  | .fileName => "the file name"
  | .inference => "inference"

/-- The values found so far, where each came from, and the values that were dropped. -/
structure Layers where
  values : Attributes
  origins : Dict String Origin
  discrepancies : Findings

namespace Layers

def empty : Layers := ⟨∅, ∅, []⟩

def sourcesAgreeRule : String := "metadata_sources_agree"

def get? (l : Layers) (key : String) : Option String := l.values.get? key

def set (l : Layers) (origin : Origin) (key value : String) : Layers :=
  { l with values := l.values.insert key value, origins := l.origins.insert key origin }

/-- The two are written the same way in a file name. -/
def sameInFileName (a b : String) : Bool :=
  Drs.applyKnownReplacements a = Drs.applyKnownReplacements b

def dropped (l : Layers) (origin : Origin) (key kept value : String) : Finding :=
  let keptOrigin := ((l.origins.get? key).map Origin.text).getD ""
  (Finding.warning sourcesAgreeRule .discrepancy
    (s!"Using {key}={quoted kept} from {keptOrigin}, ignoring {key}={quoted value} from "
      ++ origin.text)).withTarget key

/-- Adds one value of a source that comes after all before. -/
def add (origin : Origin) (l : Layers) (key value : String) : Layers :=
  if !Metadata.isKnown key || value = "" then l
  else
    match l.get? key with
    | none => l.set origin key value
    | some kept =>
      if kept ≠ value && !sameInFileName kept value then
        { l with discrepancies := l.discrepancies ++ [l.dropped origin key kept value] }
      else l

def addSource (l : Layers) (origin : Origin) (attributes : Attributes) : Layers :=
  attributes.toList.foldl (fun l e => l.add origin e.1 e.2) l

/-- Sets a value that no source has. A value from a file name gets its own characters back. -/
def infer (l : Layers) (key value : String) : Layers :=
  match l.get? key with
  | none => l.set .inference key value
  | some existing =>
    if l.origins.get? key = some .fileName && existing ≠ value && sameInFileName existing value then
      { l with values := l.values.insert key value }
    else l

/-- What the three kinds of sources say. -/
def ofSources (m : Minimum) (d : Dataset) (path? : Option Path) (drs : Drs) : Layers :=
  let l := (empty.addSource .arguments m.attributes).addSource .content d.textAttributes
  match path? with
  | none => l
  | some path =>
    match drs.parsePath path, drs.parseFileName path with
    | .ok fields, _ => l.addSource .fileName fields
    | .error _, .ok fields => l.addSource .fileName fields
    | .error _, .error _ => l

/-! ### What follows from the data and the vocabularies -/

def inferVariable (d : Dataset) (indicators : List String) : Except InferenceError String :=
  match d.dataVariables indicators with
  | [name] => .ok name
  | [] => .error (.missingRequiredField "variable_id" "the dataset holds no data variable")
  | names => .error (.ambiguous "variable_id" names)

/-- A value from a file name may be written otherwise than in the data. -/
def settleVariable (d : Dataset) (indicators : List String) (l : Layers) :
    Except InferenceError Layers :=
  if (l.origins.get? "variable_id").all (· = .fileName) then
    match inferVariable d indicators with
    | .ok name => .ok (l.infer "variable_id" name)
    | .error e => if l.get? "variable_id" = none then .error e else .ok l
  else .ok l

/-- A file with several variables does not say what they have in common. -/
def requireExplicit (l : Layers) (key : String) : Except InferenceError Unit :=
  if l.get? key = none then
    .error (.missingRequiredField key
      ("it has to be given explicitly for variable_id=" ++ quoted Metadata.multipleVariables))
  else .ok ()

def settleKnown (key : String) (known : List (String × String)) (l : Layers) :
    Except InferenceError Layers :=
  let variableId := (l.get? "variable_id").getD ""
  match l.get? key, known.lookup variableId with
  | some _, _ => .ok l
  | none, some value => .ok (l.infer key value)
  | none, none =>
    .error (.missingRequiredField key s!"no known {key} for variable_id={quoted variableId}")

def settleCategories (l : Layers) : Except InferenceError Layers := do
  if l.get? "variable_id" = some Metadata.multipleVariables then
    l.requireExplicit "dataset_category"
    l.requireExplicit "realm"
  settleKnown "realm" KnownVariables.realms
    (← settleKnown "dataset_category" KnownVariables.datasetCategories l)

def settleFrequency (d : Dataset) (l : Layers) : Except InferenceError Layers :=
  match l.get? "frequency", Frequency.infer? d.time with
  | some _, _ => .ok l
  | none, some f => .ok (l.infer "frequency" f.name)
  | none, none =>
    .error (.missingRequiredField "frequency" "the time axis fits no known frequency")

def settleTimeRange (d : Dataset) (l : Layers) : Outcome Layers :=
  match (l.get? "frequency").bind Frequency.ofName? with
  | none => .done l
  | some f => do
    match ← Consistency.expectedRange d f with
    | some range => return l.infer "time_range" range
    | none => return l

def defaultActivity : String := "input4MIPs"

/-- The activity that the source declares, or else the only one whose patterns it fits. -/
def inferActivity (cv : Vocabularies) (sourceId : String) : Except InferenceError String :=
  match (cv.sources.get? sourceId).bind (·.activityId) with
  | some declared => .ok declared
  | none =>
    match (cv.activities.filter fun _ a => a.restricts && a.accepts sourceId).keys with
    | [id] => .ok id
    | [] => .ok defaultActivity
    | ids => .error (.ambiguous "activity_id" ids)

def settleActivity (cv : Vocabularies) (sourceId : String) (l : Layers) :
    Except InferenceError Layers :=
  match l.get? "activity_id" with
  | some _ => .ok l
  | none => do return l.infer "activity_id" (← inferActivity cv sourceId)

/-- The values that the source prescribes. -/
def settleDetermined (cv : Vocabularies) (sourceId : String) :
    List Category → Layers → Except InferenceError Layers
  | [], l => .ok l
  | c :: cs, l =>
    match l.get? c.name, (cv.sources.get? sourceId).bind (·.determined? c) with
    | some _, _ => settleDetermined cv sourceId cs l
    | none, some value => settleDetermined cv sourceId cs (l.infer c.name value)
    | none, none =>
      .error (.missingRequiredField c.name s!"source_id={quoted sourceId} is not in the CVs")

def settleLicense (cv : Vocabularies) (l : Layers) : Except InferenceError Layers :=
  let licenseId := (l.get? "license_id").getD ""
  match l.get? "license", cv.licenses.get? licenseId with
  | some _, _ => .ok l
  | none, some license => .ok (l.infer "license" license.conditions)
  | none, none =>
    .error (.missingRequiredField "license" s!"license_id={quoted licenseId} is not in the CVs")

end Layers

/-- What is made anew for a file that has none. -/
structure Fresh where
  creationDate : String
  trackingId : String

def Layers.defaultConventions : String := "CF-1.7"

/-- The digits of the day of a creation date. -/
def Layers.versionOf (creationDate : String) : String :=
  String.ofList ((creationDate.toList.take 10).filter Char.isDigit)

def Layers.settleFresh (fresh : Fresh) (l : Layers) : Layers :=
  let l := ((l.infer "Conventions" defaultConventions).infer "creation_date"
    fresh.creationDate).infer "tracking_id" fresh.trackingId
  l.infer "version" (versionOf ((l.get? "creation_date").getD ""))

/-- Inferred metadata, and warnings about the values that were dropped. -/
structure Inferred where
  metadata : Metadata
  discrepancies : Findings

namespace Inferred

/-- What is settled before and after the time range. -/
def beforeRange (m : Minimum) (d : Dataset) (path? : Option Path) (cv : Vocabularies)
    (indicators : List String) : Except InferenceError Layers := do
  let l ← (Layers.ofSources m d path? cv.drs).settleVariable d indicators
  (← l.settleCategories).settleFrequency d

def afterRange (m : Minimum) (cv : Vocabularies) (fresh : Fresh) (l : Layers) :
    Except InferenceError Inferred := do
  let l ← l.settleActivity cv m.sourceId
  let l ← Layers.settleDetermined cv m.sourceId
    [.institutionId, .contact, .furtherInfoUrl, .licenseId, .mipEra, .sourceVersion] l
  let l := (← l.settleLicense cv).settleFresh fresh
  match Metadata.ofAttributes? l.values cv with
  | .ok metadata => return ⟨metadata, l.discrepancies⟩
  | .error e => throw (.metadata e)

/-- Completes the metadata of a dataset. -/
def ofMinimum (m : Minimum) (d : Dataset) (path? : Option Path) (cv : Vocabularies)
    (indicators : List String) (fresh : Fresh) : Outcome (Except InferenceError Inferred) :=
  match beforeRange m d path? cv indicators with
  | .error e => .done (.error e)
  | .ok l => do return afterRange m cv fresh (← l.settleTimeRange d)

end Inferred
end ForcingData
