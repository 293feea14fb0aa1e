import ForcingData.Json.Parser
import ForcingData.Dict

/-! # From JSON to data

A record is written as an object or as the array of its fields in order. In an object, unknown
members are skipped whatever they hold, and a known one must not occur twice. A field is required,
optional (`null` and a missing member are both no value; an array must not be too short for it), or
has a default for a missing member and for the end of a short array. -/

namespace ForcingData.Json

namespace Tree

def string? : Tree → Option String
  | .text s => s
  | _ => none

def bool? : Tree → Option Bool
  | .bool b => some b
  | _ => none

/-- A whole number from 0 to `max`. -/
def nat? (max : Nat) : Tree → Option Nat
  | .number (some (.int n)) => if 0 ≤ n && n ≤ max then some n.toNat else none
  | _ => none

def int? : Tree → Option Int
  | .number (some (.int n)) => some n
  | _ => none

def list? {α : Type} (item? : Tree → Option α) : Tree → Option (List α)
  | .array items => items.mapM item?
  | _ => none

def pair? {α β : Type} (first? : Tree → Option α) (second? : Tree → Option β) :
    Tree → Option (α × β)
  | .array [a, b] => do return (← first? a, ← second? b)
  | _ => none

/-- No value for `null`. -/
def option? {α : Type} (item? : Tree → Option α) : Tree → Option (Option α)
  | .null => some none
  | t => (item? t).map some

/-- The members of an object, in order. -/
def entries? {β : Type} (item? : Tree → Option β) : Tree → Option (List (String × β))
  | .object members => members.mapM fun m => do return (← m.1, ← item? m.2)
  | _ => none

def dict? {β : Type} (item? : Tree → Option β) (t : Tree) : Option (Dict String β) :=
  (t.entries? item?).map Dict.ofList

def uint32? (t : Tree) : Option UInt32 := (t.nat? (Word.greatest 32)).map Nat.toUInt32

/-- One of some names, alone or as the only member of an object, with `null`. -/
def choice? {α : Type} (names : List (String × α)) : Tree → Option α
  | .text s => do names.lookup (← s)
  | .object [(name, .null)] => do names.lookup (← name)
  | _ => none

end Tree

/-- The fields of a record that are there; in an array, no field may be left out before them. -/
structure Record where
  fields : List (String × Tree)
  positional : Bool

/-- The known members of an object, each at most once. -/
def knownMembers (names : List String) :
    List (Option String × Tree) → Option (List (String × Tree))
  | [] => some []
  | (name, t) :: rest => do
    let name ← name
    let fields ← knownMembers names rest
    if !names.contains name then return fields
    else if fields.any (·.1 = name) then none
    else return (name, t) :: fields

def Tree.record? (names : List String) : Tree → Option Record
  | .object members => (knownMembers names members).map fun fields => ⟨fields, false⟩
  | .array items => if items.length ≤ names.length then some ⟨names.zip items, true⟩ else none
  | _ => none

namespace Record
variable {α : Type}

def field? (r : Record) (name : String) : Option Tree := r.fields.lookup name

def required (r : Record) (name : String) (item? : Tree → Option α) : Option α :=
  (r.field? name).bind item?

def optional (r : Record) (name : String) (item? : Tree → Option α) : Option (Option α) :=
  match r.field? name with
  | some t => t.option? item?
  | none => if r.positional then none else some none

def withDefault (r : Record) (name : String) (default : α) (item? : Tree → Option α) : Option α :=
  match r.field? name with
  | some t => item? t
  | none => some default

end Record
end ForcingData.Json
