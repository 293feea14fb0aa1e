/-! # Categories

The attributes whose values the vocabularies have a say in. Some have a vocabulary of their own, a
plain set of values in an optional file. -/

namespace ForcingData

inductive Category
  | activityId
  | sourceId
  | institutionId
  | licenseId
  | mipEra
  | targetMip
  | datasetCategory
  | product
  | frequency
  | gridLabel
  | realm
  | contact
  | furtherInfoUrl
  | sourceVersion
deriving DecidableEq, Repr, Inhabited

namespace Category

def all : List Category :=
  [.activityId, .sourceId, .institutionId, .licenseId, .mipEra, .targetMip, .datasetCategory,
    .product, .frequency, .gridLabel, .realm, .contact, .furtherInfoUrl, .sourceVersion]

/-- The name of the attribute. -/
def name : Category → String
  | .activityId => "activity_id"
  | .sourceId => "source_id"
  | .institutionId => "institution_id"
  | .licenseId => "license_id"
  | .mipEra => "mip_era"
  | .targetMip => "target_mip"
  | .datasetCategory => "dataset_category"
  | .product => "product"
  | .frequency => "frequency"
  | .gridLabel => "grid_label"
  | .realm => "realm"
  | .contact => "contact"
  | .furtherInfoUrl => "further_info_url"
  | .sourceVersion => "source_version"

def ofName? (name : String) : Option Category := all.find? (·.name = name)

/-- Are the values listed in an optional file of their own? -/
def isSimple : Category → Bool
  | .mipEra | .targetMip | .datasetCategory | .product | .frequency | .gridLabel | .realm => true
  | _ => false

def simpleFile? (c : Category) : Option String :=
  if c.isSimple then some s!"input4MIPs_{c.name}.json" else none

/-- Does a source fix the value? -/
def isDetermined : Category → Bool
  | .institutionId | .contact | .furtherInfoUrl | .licenseId | .mipEra | .sourceVersion => true
  | _ => false

/-- The rule that checks a value. -/
def valueRule (c : Category) : String := s!"value_in_cvs.{c.name}"

/-- The rule that checks two values against each other. -/
def crossRule (a b : Category) : String := s!"cross_field.{a.name}.{b.name}"

end Category
end ForcingData
