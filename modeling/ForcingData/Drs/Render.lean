import ForcingData.Drs.Template
import ForcingData.Text.Quoted

/-! # Filling in templates

Directory names take values as they are. File names take them with `_` and `.` replaced by `-`, and
then allow letters, digits and `-` alone. A section is left out if one of its keys has no value. -/

namespace ForcingData.Drs

/-- Directory names and file names follow different rules. -/
inductive Part
  | directory
  | fileName
deriving DecidableEq, Repr

/-- A letter, a digit or a hyphen of ASCII: what values in file names consist of. -/
def isFileNameChar (c : Char) : Bool :=
  ('a' ≤ c && c ≤ 'z') || ('A' ≤ c && c ≤ 'Z') || ('0' ≤ c && c ≤ '9') || c == '-'

def replaceChar (c : Char) : Char := if c = '_' || c = '.' then '-' else c

/-- Replaces the characters that are common in values, but not allowed in file names. -/
def applyKnownReplacements (value : String) : String :=
  String.ofList (value.toList.map replaceChar)

inductive BuildError
  | missingField (key : String)
  | invalidFilenameCharacters (key value : String)
deriving DecidableEq, Repr

def BuildError.message : BuildError → String
  | .missingField key => s!"Metadata value for DRS key '{key}' is missing"
  | .invalidFilenameCharacters key value =>
    s!"Value {Text.quoted value} of DRS key '{key}' contains characters not allowed in file names "
      ++ "(only [a-zA-Z0-9-])"

/-- The value of a key, if it is not empty. -/
def fieldValue? (fields : Attributes) (key : String) : Option String :=
  (fields.get? key).filter (· ≠ "")

/-- How a value stands in a name. -/
def Part.render (part : Part) (key value : String) : Except BuildError (List Char) :=
  match part with
  | .directory => .ok value.toList
  | .fileName =>
    let cs := value.toList.map replaceChar
    if cs ≠ [] && cs.all isFileNameChar then .ok cs
    else .error (.invalidFilenameCharacters key value)

/-- An item that has to be there. -/
def Item.render (part : Part) (fields : Attributes) : Item → Except BuildError (List Char)
  | .literal text => .ok text
  | .key name =>
    match fieldValue? fields name with
    | some value => part.render name value
    | none => .error (.missingField name)

/-- A section up to the first key without a value, where it turns out to be left out. -/
def renderSection (part : Part) (fields : Attributes) :
    List Item → Except BuildError (Option (List Char))
  | [] => .ok (some [])
  | .literal text :: items => do
    return (← renderSection part fields items).map (text ++ ·)
  | .key name :: items =>
    match fieldValue? fields name with
    | none => .ok none
    | some value => do
      let cs ← part.render name value
      return (← renderSection part fields items).map (cs ++ ·)

def Piece.render (part : Part) (fields : Attributes) : Piece → Except BuildError (List Char)
  | .item i => i.render part fields
  | .optional items => return (← renderSection part fields items).getD []

def renderPieces (part : Part) (fields : Attributes) :
    List Piece → Except BuildError (List Char)
  | [] => .ok []
  | p :: ps => do
    let cs ← p.render part fields
    return cs ++ (← renderPieces part fields ps)

def Template.render (part : Part) (fields : Attributes) (t : Template) :
    Except BuildError String := do
  return String.ofList (← renderPieces part fields t.pieces)

end ForcingData.Drs
