import ForcingData.Dataset.Frequency
import ForcingData.Finding
import ForcingData.Metadata.Attributes
import ForcingData.Text.Quoted

/-! # Metadata against data

The attributes of a file have to agree with what the file holds. There is one finding for each of
five rules. -/

namespace ForcingData.Consistency
open Text

def variableRule : String := "dataset.variable_id"
def frequencyRule : String := "dataset.frequency"
def timeRangeRule : String := "dataset.time_range"
def externalRule : String := "dataset.external_variables"
def timeDimensionRule : String := "dataset.time_dimension"

def missing (rule key : String) : Finding :=
  .fail rule .missingAttribute
    s!"Attribute '{key}' is missing, so it can not be compared to the data"

def inconsistent (rule message : String) : Finding := .fail rule .datasetInconsistency message

/-- The attribute names the one data variable, or says that there are several. -/
def checkVariable (attributes : Attributes) (dataVars : List String) : Finding :=
  match attributes.get? "variable_id" with
  | none => missing variableRule "variable_id"
  | some variableId =>
    if variableId = Metadata.multipleVariables && 1 < dataVars.length then
      .pass variableRule "The dataset holds multiple variables"
    else if variableId ≠ Metadata.multipleVariables && dataVars = [variableId] then
      .pass variableRule "variable_id matches the data variable"
    else
      inconsistent variableRule
        s!"variable_id={quoted variableId}, but the data variables are {quotedList dataVars}"

def checkFrequency (attributes : Attributes) (d : Dataset) : Finding :=
  match attributes.get? "frequency" with
  | none => missing frequencyRule "frequency"
  | some frequency =>
    match Frequency.infer? d.time with
    | some inferred =>
      if inferred.name = frequency then .pass frequencyRule "frequency matches the time axis"
      else
        inconsistent frequencyRule
          s!"frequency={quoted frequency}, but the time axis suggests {quoted inferred.name}"
    | none =>
      .warning frequencyRule .datasetInconsistency
        ("Could not infer a frequency from the time axis to compare "
          ++ s!"frequency={quoted frequency} with")

/-- What the time axis says about the time range. -/
def expectedRange (d : Dataset) (f : Frequency) : Outcome (Option String) :=
  match d.time with
  | some axis => axis.range f
  | none => .done none

def compareRanges (declared expected : Option String) : Finding :=
  match declared, expected with
  | none, none => .pass timeRangeRule "No time range, as expected"
  | none, some expected =>
    .warning timeRangeRule .missingAttribute
      s!"Attribute 'time_range' is not set; the time axis covers {quoted expected}"
  | some declared, expected =>
    if expected = some declared then .pass timeRangeRule "time_range matches the time axis"
    else
      inconsistent timeRangeRule
        s!"time_range={quoted declared}, but the time axis gives {quotedOption expected}"

def checkTimeRange (attributes : Attributes) (d : Dataset) : Outcome Finding :=
  match attributes.get? "frequency" with
  | none => .done (missing timeRangeRule "frequency")
  | some frequency =>
    match Frequency.ofName? frequency with
    | none =>
      .done (.pass timeRangeRule s!"No time range format known for frequency={quoted frequency}")
    | some f => do
      return compareRanges (attributes.get? "time_range") (← expectedRange d f)

/-- Variables that are said to be in other files must not be in this one. -/
def checkExternal (attributes : Attributes) (d : Dataset) : Finding :=
  let names := words ((attributes.get? "external_variables").getD "")
  match names.filter d.vars.contains with
  | [] => .pass externalRule "No external variable is contained in the file"
  | present =>
    inconsistent externalRule
      s!"External variables must not be contained in the file, but found {quotedList present}"

/-- Data variables have the time dimension unless their frequency is fixed. -/
def checkTimeDimension (attributes : Attributes) (d : Dataset) (dataVars : List String) :
    Finding :=
  match attributes.get? "frequency" with
  | none => missing timeDimensionRule "frequency"
  | some frequency =>
    let fixed : Bool := frequency = Frequency.fixed.name
    let hasTime (name : String) : Bool :=
      (d.vars.get? name).any (·.dimensions.contains d.timeName)
    match dataVars.filter (hasTime · == fixed) with
    | [] => .pass timeDimensionRule "Time dimension matches the frequency"
    | wrong =>
      let verb := if fixed then "have" else "lack"
      inconsistent timeDimensionRule
        (s!"frequency={quoted frequency}, but {quotedList wrong} {verb} a '{d.timeName}' "
          ++ "dimension")

/-- The findings of all five rules. -/
def validate (d : Dataset) (attributes : Attributes) (indicators : List String) :
    Outcome Findings := do
  let dataVars := d.dataVariables indicators
  let timeRange ← checkTimeRange attributes d
  return [checkVariable attributes dataVars, checkFrequency attributes d, timeRange,
    checkExternal attributes d, checkTimeDimension attributes d dataVars]

end ForcingData.Consistency
