import ForcingData.Drs.Render
import ForcingData.Text.Affix
import ForcingData.Text.Notation

/-! # Matching names

A pattern is a sequence of pieces, each with the part of the path it stands in. `matchAll` reads a
whole text by it: every placeholder takes as much as it can, and every section is there if it can
be, the first ones having the first choice. `findEnd` looks for the longest such end of a path.
`patternText` is the pattern in the notation that messages show. -/

namespace ForcingData.Drs

abbrev Pattern := List (Part × Piece)

/-- The text that a placeholder took. -/
structure Capture where
  part : Part
  key : String
  text : List Char
deriving DecidableEq, Repr

def Part.allows : Part → Char → Bool
  | .directory, c => c ≠ '/'
  | .fileName, c => isFileNameChar c

/-- The first of `n, n - 1, …, 1` for which `f` has a result. -/
def firstDown {α : Type} (f : Nat → Option α) : Nat → Option α
  | 0 => none
  | n + 1 => f (n + 1) <|> firstDown f n

/-- Reads the items, and the rest of the text by `next`. -/
def matchItems (part : Part) (next : List Char → Option (List Capture)) :
    List Item → List Char → Option (List Capture)
  | [], cs => next cs
  | .literal text :: items, cs =>
    (Text.dropPrefix? text cs).bind (matchItems part next items)
  | .key name :: items, cs =>
    firstDown (fun n => (matchItems part next items (cs.drop n)).map (⟨part, name, cs.take n⟩ :: ·))
      (cs.takeWhile part.allows).length

/-- Reads all of the text. -/
def matchAll : Pattern → List Char → Option (List Capture)
  | [], cs => if cs = [] then some [] else none
  | (part, .item i) :: ps, cs => matchItems part (matchAll ps) [i] cs
  | (part, .optional items) :: ps, cs => matchItems part (matchAll ps) items cs <|> matchAll ps cs

/-- Reads what follows the first slash for which that is possible. -/
def matchAfterSlash (p : Pattern) : List Char → Option (List Capture)
  | [] => none
  | c :: cs => if c = '/' then matchAll p cs <|> matchAfterSlash p cs else matchAfterSlash p cs

/-- Reads the whole text, or else its longest end after a slash. -/
def findEnd (p : Pattern) (cs : List Char) : Option (List Capture) :=
  matchAll p cs <|> matchAfterSlash p cs

/-! ### Notation -/

def Part.classText : Part → String
  | .directory => "[^/]+"
  | .fileName => "[a-zA-Z0-9-]+"

/-- The notation of items, the placeholders numbered from `n`; and the next number. -/
def itemsText (part : Part) (n : Nat) : List Item → String × Nat
  | [] => ("", n)
  | .literal text :: items =>
    let (rest, m) := itemsText part n items
    (String.ofList (Text.escapeMeta text) ++ rest, m)
  | .key _ :: items =>
    let (rest, m) := itemsText part (n + 1) items
    (s!"(?P<g{n}>" ++ part.classText ++ ")" ++ rest, m)

def patternText (n : Nat) : Pattern → String
  | [] => ""
  | (part, .item i) :: ps =>
    let (text, m) := itemsText part n [i]
    text ++ patternText m ps
  | (part, .optional items) :: ps =>
    let (text, m) := itemsText part n items
    "(?:" ++ text ++ ")?" ++ patternText m ps

end ForcingData.Drs
