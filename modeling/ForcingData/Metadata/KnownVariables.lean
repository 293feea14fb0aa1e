import ForcingData.Drs.Template

/-! # Known variables

The category of dataset and the realm that go with the names of variables. -/

namespace ForcingData.KnownVariables

/-- The mole fractions of greenhouse gases. -/
def gases : List String :=
  ["carbon_dioxide", "methane", "nitrous_oxide", "pfc116", "pfc218", "pfc3110", "pfc4112",
    "pfc5114", "pfc6116", "pfc7118", "pfc318", "carbon_tetrachloride", "carbon_tetrafluoride",
    "cfc11", "cfc113", "cfc114", "cfc115", "cfc12", "dichloromethane", "methyl_bromide", "hcc140a",
    "methyl_chloride", "chloroform", "halon1211", "halon1301", "halon2402", "hcfc141b", "hcfc142b",
    "hcfc22", "hfc125", "hfc134a", "hfc143a", "hfc152a", "hfc227ea", "hfc23", "hfc236fa",
    "hfc245fa", "hfc32", "hfc365mfc", "hfc4310mee", "nitrogen_trifluoride", "sulfur_hexafluoride",
    "sulfuryl_fluoride", "cfc11_eq", "cfc12_eq", "hfc134a_eq"].map
    fun gas => s!"mole_fraction_of_{gas}_in_air"

/-- `dataset_category` by variable. -/
def datasetCategories : List (String × String) :=
  gases.map (·, "GHGConcentrations")
    ++ [("tos", "SSTsAndSeaIce"), ("siconc", "SSTsAndSeaIce"), ("sftof", "SSTsAndSeaIce"),
      ("solar_irradiance_per_unit_wavelength", "solar"), ("solar_irradiance", "solar")]

/-- `realm` by variable. -/
def realms : List (String × String) :=
  gases.map (·, "atmos")
    ++ [("tos", "ocean"), ("siconc", "seaIce"), ("sftof", "ocean"), ("areacello", "ocean"),
      ("solar_irradiance_per_unit_wavelength", "atmos"), ("solar_irradiance", "atmos"),
      ("areacella", "atmos")]

end ForcingData.KnownVariables
