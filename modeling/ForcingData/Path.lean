import ForcingData.Text.Blank

/-! # Paths

A path is its text; `Path.parts` is what it says, step by step: repeated slashes, slashes at the end
and steps `.` that are not the first say nothing. Paths are ordered and looked up by their parts. -/

namespace ForcingData
open Text

structure Path where
  text : String
deriving DecidableEq, Inhabited, Repr

/-- One step of a path. -/
inductive Path.Part
  | root
  | here
  | up
  | name (text : String)
deriving DecidableEq, Repr

namespace Path

/-! ### Parts -/

/-- The step that a piece between slashes stands for, if it is not the first. -/
def Part.ofPiece (piece : List Char) : Option Part :=
  if piece = [] ∨ piece = ['.'] then none
  else if piece = ['.', '.'] then some .up
  else some (.name (String.ofList piece))

def partsOfChars : List Char → List Part
  | '/' :: rest => .root :: (splitChars (· == '/') rest).filterMap Part.ofPiece
  | cs =>
    match splitChars (· == '/') cs with
    | ['.'] :: pieces => .here :: pieces.filterMap Part.ofPiece
    | pieces => pieces.filterMap Part.ofPiece

def parts (p : Path) : List Part := partsOfChars p.text.toList

/-- Steps are ordered by kind, names by their characters. -/
def Part.rank : Part → Nat
  | .root => 0
  | .here => 1
  | .up => 2
  | .name _ => 3

def Part.label : Part → String
  | .name text => text
  | _ => ""

instance : Ord Part := ⟨compareLex (compareOn Part.rank) (compareOn Part.label)⟩
instance : Std.TransOrd Part :=
  inferInstanceAs (Std.TransCmp (compareLex (compareOn Part.rank) (compareOn Part.label)))

instance : Ord Path := ⟨compareOn Path.parts⟩
instance : Std.TransOrd Path := inferInstanceAs (Std.TransCmp (compareOn Path.parts))

/-- Do the paths have the same parts? -/
def same (p q : Path) : Bool := p.parts == q.parts

def isAbsolute (p : Path) : Bool := p.text.toList.head? = some '/'

/-! ### Pieces of a path -/

/-- The name at the end, if the path ends in one. -/
def fileName? (p : Path) : Option String :=
  match p.parts.getLast? with
  | some (.name n) => some n
  | _ => none

/-- What follows the last dot of a name, if anything stands before that dot. -/
def extensionChars (name : List Char) : Option (List Char) :=
  let ext := (name.reverse.takeWhile (· != '.')).reverse
  if name.length ≤ ext.length + 1 then none else some ext

def extension? (p : Path) : Option String :=
  (p.fileName?.bind fun n => extensionChars n.toList).map String.ofList

def isVoid (piece : List Char) : Bool := piece == [] || piece == ['.']

def joinPieces : List (List Char) → List Char
  | [] => []
  | [piece] => piece
  | piece :: pieces => piece ++ '/' :: joinPieces pieces

/-- The text of the path without its last part. -/
def parentChars : List Char → Option (List Char)
  | '/' :: rest =>
    match ((splitChars (· == '/') rest).reverse).dropWhile isVoid with
    | [] => none
    | _ :: more => some ('/' :: joinPieces (more.dropWhile isVoid).reverse)
  | cs =>
    match splitChars (· == '/') cs with
    | [] => none
    | first :: pieces =>
      match pieces.reverse.dropWhile isVoid with
      | [] => if first = [] then none else some []
      | _ :: more => some (joinPieces (first :: (more.dropWhile isVoid).reverse))

def parent? (p : Path) : Option Path :=
  (parentChars p.text.toList).map fun cs => ⟨String.ofList cs⟩

/-! ### Joining and comparing -/

/-- `q` seen from `p`: an absolute `q` stands for itself, an empty one leaves a slash at the end. -/
def join (p q : Path) : Path :=
  if q.isAbsolute then q
  else if p.text = "" || p.text.toList.getLast? = some '/' then ⟨p.text ++ q.text⟩
  else ⟨p.text ++ "/" ++ q.text⟩

/-- Are the parts of `q` the last parts of `p`? -/
def endsWith (p q : Path) : Bool := q.parts.isSuffixOf p.parts

end Path
end ForcingData
