import ForcingData.Dict
import ForcingData.Json.Basic

/-! # From data to JSON

The counterpart of reading data: lists are arrays, dictionaries objects in key order, and no value
is `null`. -/

namespace ForcingData.Json.Value

def texts (l : List String) : Value := .array (l.map .text)

def ofOption {α : Type} (json : α → Value) : Option α → Value
  | some a => json a
  | none => .null

def ofDict {β : Type} (json : β → Value) (d : Dict String β) : Value :=
  .object (d.toList.map fun e => (e.1, json e.2))

end ForcingData.Json.Value
