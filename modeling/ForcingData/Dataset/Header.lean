import ForcingData.Dataset.Basic
import ForcingData.Json.Decode
import ForcingData.Path
import ForcingData.Time.Parser

/-! # Headers

A dataset as it is written in JSON. Everything but the points of the time axis may be left out. The
header of a data file is in a file beside it, or is the file itself. -/

namespace ForcingData
open Json

/-- The attributes of something that stands `depth` levels deep in the header. -/
def attributeValues? (depth : Nat) : Tree → Option (Dict String Value) :=
  Tree.dict? (Tree.value? (depthLimit - depth))

def instant? (t : Tree) : Option Instant := t.string?.bind Instant.parse?

def Variable.ofTree? (t : Tree) : Option Variable := do
  let r ← t.record? ["dimensions", "attributes"]
  return {
    dimensions := ← r.withDefault "dimensions" [] (Tree.list? Tree.string?)
    attributes := ← r.withDefault "attributes" ∅ (attributeValues? 4) }

def TimeAxis.ofTree? (t : Tree) : Option TimeAxis := do
  let r ← t.record? ["name", "points", "bounds", "climatology"]
  return {
    name := ← r.withDefault "name" "time" Tree.string?
    points := ← r.required "points" (Tree.list? instant?)
    bounds := ← r.withDefault "bounds" none
      (Tree.option? (Tree.list? (Tree.pair? instant? instant?)))
    climatology := ← r.withDefault "climatology" false Tree.bool? }

def Dataset.ofTree? (t : Tree) : Option Dataset := do
  let r ← t.record? ["attributes", "dimensions", "variables", "time"]
  return {
    attributes := ← r.withDefault "attributes" ∅ (attributeValues? 2)
    dimensions := ← r.withDefault "dimensions" ∅ (Tree.dict? (Tree.nat? (Word.greatest 64)))
    vars := ← r.withDefault "variables" ∅ (Tree.dict? Variable.ofTree?)
    time := ← r.withDefault "time" none (Tree.option? TimeAxis.ofTree?) }

def Dataset.ofBytes? (bytes : ByteArray) : Option Dataset :=
  (Tree.ofBytes? bytes).bind Dataset.ofTree?

/-- The file beside a data file that holds its header. -/
def Dataset.sidecar (p : Path) : Path := ⟨p.text ++ ".header.json"⟩

end ForcingData
