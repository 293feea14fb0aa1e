/-! # Beginnings and ends of texts -/

namespace ForcingData.Text

/-- `text` at the start of `cs`: what follows it. -/
def dropPrefix? : List Char → List Char → Option (List Char)
  | [], cs => some cs
  | _ :: _, [] => none
  | t :: text, c :: cs => if t = c then dropPrefix? text cs else none

/-- Does the text begin with this one? -/
def startsWith (text s : String) : Bool :=
  text.toList.isPrefixOf s.toList

/-- What comes before the first and after the first `c`, if there is one. -/
def splitFirst? (c : Char) : List Char → Option (List Char × List Char)
  | [] => none
  | d :: ds => if d = c then some ([], ds) else (splitFirst? c ds).map fun (a, b) => (d :: a, b)

end ForcingData.Text
