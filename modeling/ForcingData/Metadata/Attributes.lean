import ForcingData.Drs.Template

/-! # Attributes of the metadata

Which attributes a data file must have and which others are known. An empty value counts as none. -/

namespace ForcingData.Metadata

def requiredAttributes : List String :=
  ["activity_id", "contact", "dataset_category", "frequency", "further_info_url", "grid_label",
    "institution_id", "license", "mip_era", "nominal_resolution", "realm", "source_id",
    "source_version", "target_mip", "variable_id"]

def optionalAttributes : List String :=
  ["Conventions", "comment", "creation_date", "external_variables", "grid", "institution",
    "license_id", "product", "references", "region", "source", "time_range", "title", "tracking_id",
    "version"]

/-- The variable of a file that holds more than one. -/
def multipleVariables : String := "multiple"

def isRequired (key : String) : Bool := requiredAttributes.contains key

def isKnown (key : String) : Bool := isRequired key || optionalAttributes.contains key

/-- The required attributes without a value. -/
def missing (attributes : Attributes) : List String :=
  requiredAttributes.filter fun key => (attributes.get? key).all (· = "")

end ForcingData.Metadata
