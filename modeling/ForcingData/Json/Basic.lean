import ForcingData.Decimal.Shortest

/-! # JSON

`Tree` is what a text says, with every member of an object kept; a leaf whose content has no value
(a number out of range, half of a surrogate pair) is still a leaf, so that it can be skipped.
`Value` is what a text means. Texts are read nested up to `depthLimit` deep. -/

namespace ForcingData.Json

/-- Whole numbers from `-2 ^ 63` to `2 ^ 64 - 1` are exact, all others are doubles. -/
inductive Number
  | int (value : Int)
  | float (value : Float)
deriving Inhabited, Repr

inductive Tree
  | null
  | bool (value : Bool)
  | number (value : Option Number)
  | text (value : Option String)
  | array (items : List Tree)
  | object (members : List (Option String × Tree))
deriving Inhabited, Repr

inductive Value
  | null
  | bool (value : Bool)
  | number (value : Number)
  | text (value : String)
  | array (items : List Value)
  | object (members : List (String × Value))
deriving Inhabited, Repr

/-- How many arrays and objects may stand inside each other. -/
def depthLimit : Nat := 127

/-- Adds a member; one of the same name gets the new value and keeps its place. -/
def putMember (name : String) (v : Value) : List (String × Value) → List (String × Value)
  | [] => [(name, v)]
  | m :: rest => if m.1 = name then (name, v) :: rest else m :: putMember name v rest

mutual

/-- What the tree means, if all of it has a meaning and it is nested at most `depth` deep. -/
def Tree.value? (depth : Nat) : Tree → Option Value
  | .null => some .null
  | .bool b => some (.bool b)
  | .number n => n.map .number
  | .text s => s.map .text
  | .array items =>
    match depth with
    | 0 => none
    | d + 1 => (Tree.values? d items).map .array
  | .object members =>
    match depth with
    | 0 => none
    | d + 1 => (Tree.members? d members).map fun ms =>
        .object (ms.foldl (fun acc m => putMember m.1 m.2 acc) [])

def Tree.values? (depth : Nat) : List Tree → Option (List Value)
  | [] => some []
  | t :: rest => do
    let v ← Tree.value? depth t
    let vs ← Tree.values? depth rest
    return v :: vs

def Tree.members? (depth : Nat) : List (Option String × Tree) → Option (List (String × Value))
  | [] => some []
  | (name, t) :: rest => do
    let name ← name
    let v ← Tree.value? depth t
    let ms ← Tree.members? depth rest
    return (name, v) :: ms

end

mutual

/-- The tree that says `v`. -/
def Value.tree : Value → Tree
  | .null => .null
  | .bool b => .bool b
  | .number n => .number (some n)
  | .text s => .text (some s)
  | .array items => .array (Value.trees items)
  | .object members => .object (Value.memberTrees members)

def Value.trees : List Value → List Tree
  | [] => []
  | v :: rest => v.tree :: Value.trees rest

def Value.memberTrees : List (String × Value) → List (Option String × Tree)
  | [] => []
  | (name, v) :: rest => (some name, v.tree) :: Value.memberTrees rest

end

/-- The member of an object. -/
def Value.member? (name : String) : Value → Option Value
  | .object members => (members.find? (·.1 = name)).map (·.2)
  | _ => none

def Value.nat (n : Nat) : Value := .number (.int n)

end ForcingData.Json
