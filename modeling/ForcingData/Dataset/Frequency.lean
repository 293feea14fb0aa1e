import ForcingData.Dataset.Basic
import ForcingData.Outcome

/-! # Frequencies

How often a dataset has values, and which time it covers. `Frequency.infer?` reads the frequency off
the time axis: off its bounds, or else off the steps from point to point. `TimeAxis.range` is the
text of the time that the axis covers. -/

namespace ForcingData

inductive Frequency
  | fixed
  | monthlyClimatology
  | yearly
  | monthly
  | daily
  | threeHourly
deriving DecidableEq, Repr, Inhabited

namespace Frequency

def all : List Frequency := [.fixed, .monthlyClimatology, .yearly, .monthly, .daily, .threeHourly]

def name : Frequency → String
  | .fixed => "fx"
  | .monthlyClimatology => "monC"
  | .yearly => "yr"
  | .monthly => "mon"
  | .daily => "day"
  | .threeHourly => "3hr"

def ofName? (name : String) : Option Frequency := all.find? (·.name = name)

/-- How much of an instant the ends of a time range show. -/
inductive Precision
  | year
  | month
  | day
  | minute
deriving DecidableEq, Repr

def precision? : Frequency → Option Precision
  | .fixed => none
  | .yearly => some .year
  | .monthly | .monthlyClimatology => some .month
  | .daily => some .day
  | .threeHourly => some .minute

/-- The pattern of the ends of a time range. -/
def Precision.pattern : Precision → String
  | .year => "%Y"
  | .month => "%Y%m"
  | .day => "%Y%m%d"
  | .minute => "%Y%m%d%H%M"

/-- The digits of an instant. -/
def Precision.text (p : Precision) (t : Instant) : String :=
  let year := Instant.yearText t.date.year
  let month := Instant.padded 2 t.date.month
  let day := Instant.padded 2 t.date.day
  match p with
  | .year => year
  | .month => year ++ month
  | .day => year ++ month ++ day
  | .minute =>
    year ++ month ++ day ++ Instant.padded 2 (t.second / 3600)
      ++ Instant.padded 2 (t.second / 60 % 60)

/-! ### Inference -/

abbrev Step := Instant × Instant

/-- The steps from each point to the next. -/
def pointSteps : List Instant → List Step
  | a :: b :: rest => (a, b) :: pointSteps (b :: rest)
  | _ => []

def months (s : Step) : Int := s.2.date.monthIndex - s.1.date.monthIndex

def length (s : Step) : Int := s.2.since s.1

/-- The first frequency that all steps fit. -/
def ofSteps? (steps : List Step) : Option Frequency :=
  if steps = [] then none
  else if steps.all fun s => months s = 12 then some .yearly
  else if steps.all fun s => months s = 1 && Instant.days 28 ≤ length s then some .monthly
  else if steps.all fun s => length s = Instant.days 1 then some .daily
  else if steps.all fun s => length s = Instant.hours 3 then some .threeHourly
  else none

/-- The frequency of a time axis; without one it is fixed. -/
def infer? : Option TimeAxis → Option Frequency
  | none => some .fixed
  | some axis =>
    let steps := pointSteps axis.points
    if axis.climatology then
      if steps ≠ [] && steps.all fun s => months s = 1 then some .monthlyClimatology else none
    else ofSteps? (axis.bounds.getD steps)

end Frequency

namespace TimeAxis

/-- The message with which work ends if there is no day before the end of the bounds. -/
def rangeOverflow : String := "`NaiveDateTime - TimeDelta` overflowed"

/-- The last month of a climatology: an end on the first of a month does not count itself. -/
def lastMonth (t : Instant) : Outcome Instant :=
  if t.date.day = 1 then
    match t.dayBefore? with
    | some before => .done before
    | none => .aborted rangeOverflow
  else .done t

/-- The time covered: from the first to the last point, or all of the bounds of a climatology. -/
def range (axis : TimeAxis) (f : Frequency) : Outcome (Option String) :=
  match f.precision? with
  | none => .done none
  | some p =>
    if f = .monthlyClimatology then
      let bounds := axis.bounds.getD []
      match Instant.earliest? (bounds.map (·.1)), Instant.latest? (bounds.map (·.2)) with
      | some start, some stop => do
        let stop ← lastMonth stop
        return some s!"{p.text start}-{p.text stop}-clim"
      | _, _ => .done none
    else
      match Instant.earliest? axis.points, Instant.latest? axis.points with
      | some start, some stop => .done (some s!"{p.text start}-{p.text stop}")
      | _, _ => .done none

end TimeAxis
end ForcingData
