import ForcingData.Decimal.Reading
import ForcingData.Yaml.Alias

/-! # Values in YAML

What plain scalars stand for: nothing, truth values, whole numbers in four bases, decimal numbers,
and else themselves. Whole numbers that JSON has no exact form for are refused. A tag of the core
says what a scalar has to be; tags of other kinds have no form in JSON. -/

namespace ForcingData.Yaml
open Json Text

def isNull (s : String) : Bool := ["", "~", "null", "Null", "NULL"].contains s

def bool? (s : String) : Option Bool :=
  if ["true", "True", "TRUE"].contains s then some true
  else if ["false", "False", "FALSE"].contains s then some false
  else none

/-- Zeros before other digits make a text of a number. -/
def hasLeadingZero (cs : List Char) : Bool :=
  match (Decimal.dropSign cs).2 with
  | '0' :: c :: rest => (c :: rest).all Char.isDigit
  | _ => false

def baseOf? : List Char → Option (Nat × List Char)
  | '0' :: 'x' :: digits => some (16, digits)
  | '0' :: 'o' :: digits => some (8, digits)
  | '0' :: 'b' :: digits => some (2, digits)
  | _ => none

/-- A whole number. -/
def int? (cs : List Char) : Option Int :=
  let (negative, digits) := Decimal.dropSign cs
  let magnitude := match baseOf? digits with
    | some (base, digits) => Decimal.natOfDigits? base digits
    | none => if hasLeadingZero cs then none else Decimal.natOfDigits? 10 digits
  magnitude.map fun n => if negative then -(n : Int) else n

def isNotFinite (s : String) : Bool :=
  [".inf", ".Inf", ".INF", "+.inf", "+.Inf", "+.INF", "-.inf", "-.Inf", "-.INF", ".nan", ".NaN",
    ".NAN"].contains s

def number? (s : String) : Option Value :=
  let cs := s.toList
  if isNotFinite s then some .null
  else if hasLeadingZero cs then none
  else
    match Decimal.float? cs with
    | some f => if f.isFinite then some (.number (.float f)) else none
    | none => none

/-- The value of a plain scalar; the outer value is missing if there is none in JSON. -/
def plainValue? (s : String) : Option Value :=
  if isNull s then some .null
  else
    match bool? s with
    | some b => some (.bool b)
    | none =>
      match int? s.toList with
      | some n =>
        if Word.fitsSigned 64 n || Word.fits 64 n then some (.number (.int n))
        else if Word.fitsSigned 128 n || Word.fits 128 n then none
        else some ((number? s).getD (.text s))
      | none => some ((number? s).getD (.text s))

/-- What a scalar with this tag stands for. -/
def taggedValue? (tag s : String) : Option Value :=
  if tag = coreTag "bool" then (bool? s).map .bool
  else if tag = coreTag "int" then
    (int? s.toList).bind fun n =>
      if Word.fitsSigned 64 n || Word.fits 64 n then some (.number (.int n)) else none
  else if tag = coreTag "float" then number? s
  else if tag = coreTag "null" then (if isNull s then some .null else none)
  else some (.text s)

def isLocalTag (tag : String) : Bool := tag.toList.head? = some '!'

mutual

def Node.value? : Node → Option Value
  | .scalar s => if s.plain then plainValue? s.text else some (.text s.text)
  | .list items => (nodeValues? items).map .array
  | .map entries =>
    (entryValues? entries).map fun ms =>
      .object (ms.foldl (fun acc m => putMember m.1 m.2 acc) [])
  | .alias _ => none
  | .marked p node =>
    match p.tag, node with
    | none, node => node.value?
    | some tag, .scalar s => if isLocalTag tag then none else taggedValue? tag s.text
    | some tag, node => if isLocalTag tag then none else node.value?

def nodeValues? : List Node → Option (List Value)
  | [] => some []
  | n :: rest => do
    let v ← n.value?
    return v :: (← nodeValues? rest)

def entryValues? : List (Scalar × Node) → Option (List (String × Value))
  | [] => some []
  | (key, n) :: rest => do
    let v ← n.value?
    return (key.text, v) :: (← entryValues? rest)

end

/-- The value of the only document in a text, and `null` if there is none. -/
def valueOf? (s : String) : Option Value := do
  ((← content? s).getD .empty).value?

end ForcingData.Yaml
