import ForcingData.Text.Printable

/-! # Blanks

The white space of every script, and what is cut at it: `trim`, `words`, `lines`. -/

namespace ForcingData.Text

/-- The code points with the property White_Space. -/
def blankRanges : List (Nat × Nat) :=
  [(9, 0xd), (0x20, 0x20), (0x85, 0x85), (0xa0, 0xa0), (0x1680, 0x1680), (0x2000, 0x200a),
    (0x2028, 0x2029), (0x202f, 0x202f), (0x205f, 0x205f), (0x3000, 0x3000)]

def isBlank (c : Char) : Bool :=
  inRanges blankRanges c.toNat

/-- Cuts the blanks off at both ends. -/
def trimChars (cs : List Char) : List Char :=
  ((cs.dropWhile isBlank).reverse.dropWhile isBlank).reverse

def trim (s : String) : String :=
  String.ofList (trimChars s.toList)

/-- Splits at every character that satisfies `p`; the pieces may be empty. -/
def splitChars (p : Char → Bool) : List Char → List (List Char)
  | [] => [[]]
  | c :: rest =>
    if p c then [] :: splitChars p rest
    else
      match splitChars p rest with
      | [] => [[c]]
      | piece :: pieces => (c :: piece) :: pieces

/-- The pieces between the separators; a text without one is one piece. -/
def splitAt (sep : Char) (s : String) : List String :=
  (splitChars (· == sep) s.toList).map String.ofList

/-- The longest runs without a blank, in order. -/
def words (s : String) : List String :=
  ((splitChars isBlank s.toList).filter (!·.isEmpty)).map String.ofList

/-- Drops one carriage return at the end. -/
def dropReturn (line : List Char) : List Char :=
  if line.getLast? = some '\r' then line.dropLast else line

/-- The lines of a text, without their ends; a line feed at the very end starts no line. -/
def lineChars (cs : List Char) : List (List Char) :=
  let pieces := splitChars (· == '\n') cs
  match pieces.getLast? with
  | some [] => pieces.dropLast.map dropReturn
  | some last => pieces.dropLast.map dropReturn ++ [last]
  | none => []

def lines (s : String) : List String :=
  (lineChars s.toList).map String.ofList

theorem splitChars_ne_nil (p : Char → Bool) (cs : List Char) : splitChars p cs ≠ [] := by
  cases cs with
  | nil => simp [splitChars]
  | cons c rest => rw [splitChars]; split <;> (try split) <;> simp

end ForcingData.Text
