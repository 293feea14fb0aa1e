import ForcingData.Drs.Template
import ForcingData.Json.Printer
import ForcingData.Text.Blank
import ForcingData.Time.Instant

/-! # Datasets

What is known of a data file without its numbers: its attributes and dimensions, its variables, and
the times along its time axis. -/

namespace ForcingData
open Json

structure Variable where
  dimensions : List String
  attributes : Dict String Value
deriving Inhabited

/-- Points in time, and perhaps the span that each of them stands for. -/
structure TimeAxis where
  name : String
  points : List Instant
  bounds : Option (List (Instant × Instant))
  climatology : Bool
deriving DecidableEq, Repr, Inhabited

structure Dataset where
  attributes : Dict String Value
  dimensions : Dict String Nat
  vars : Dict String Variable
  time : Option TimeAxis
deriving Inhabited

/- The text of a value: texts as they are, the items of a list with blanks between them, nothing for
`null`, and all else in JSON. -/
mutual

def valueText? : Value → Option String
  | .null => none
  | .text s => some s
  | .array items => some (" ".intercalate (itemTexts items))
  | v => some v.compact

def itemTexts : List Value → List String
  | [] => []
  | v :: vs => (valueText? v).toList ++ itemTexts vs

end

def Variable.attribute? (v : Variable) (key : String) : Option String :=
  (v.attributes.get? key).bind valueText?

namespace Dataset

/-- The attributes that have a text. -/
def textAttributes (d : Dataset) : Attributes := d.attributes.filterMap fun _ v => valueText? v

def attribute? (d : Dataset) (key : String) : Option String :=
  (d.attributes.get? key).bind valueText?

/-- The name of the time axis, also where there is none. -/
def timeName (d : Dataset) : String :=
  match d.time with
  | some axis => axis.name
  | none => "time"

def hasTimeDimension (d : Dataset) : Bool := d.dimensions.contains d.timeName

/-! ### Data variables -/

def defaultIndicators : List String := ["bnds", "bounds"]

def containsText (needle : List Char) : List Char → Bool
  | [] => needle.isEmpty
  | c :: cs => needle.isPrefixOf (c :: cs) || containsText needle cs

/-- The names by which variables refer to others as their bounds or coordinates. -/
def referenced (d : Dataset) : List String :=
  d.vars.values.flatMap fun v =>
    ["bounds", "climatology", "coordinates"].flatMap fun key =>
      (((v.attribute? key).map Text.words).getD [])

/-- The variables that hold data: no dimension has their name, no other variable refers to them, and
no indicator of bounds occurs in their name. In order. -/
def dataVariables (d : Dataset) (indicators : List String) : List String :=
  d.vars.keys.filter fun name =>
    !d.dimensions.contains name && !d.referenced.contains name
      && !indicators.any fun i => containsText i.toList name.toList

end Dataset
end ForcingData
