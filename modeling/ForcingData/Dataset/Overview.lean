import ForcingData.Dataset.Basic
import ForcingData.Json.Encode

/-! # Overviews of datasets

A dataset as JSON, with the texts of its attributes in place of their values. -/

namespace ForcingData
open Json

def Variable.overview (v : Variable) : Value :=
  .object [("dimensions", .texts v.dimensions),
    ("attributes", .ofDict (fun value => .ofOption .text (valueText? value)) v.attributes)]

def TimeAxis.overview (axis : TimeAxis) : Value :=
  let span (s : Instant × Instant) : Value := .texts [s.1.text, s.2.text]
  .object [("name", .text axis.name), ("points", .texts (axis.points.map Instant.text)),
    ("bounds", .ofOption (fun spans => .array (spans.map span)) axis.bounds),
    ("climatology", .bool axis.climatology)]

def Dataset.overview (d : Dataset) : Value :=
  .object [("attributes", .ofDict .text d.textAttributes),
    ("dimensions", .ofDict .nat d.dimensions),
    ("variables", .ofDict Variable.overview d.vars),
    ("time", .ofOption TimeAxis.overview d.time),
    ("has_time_dimension", .bool d.hasTimeDimension)]

end ForcingData
