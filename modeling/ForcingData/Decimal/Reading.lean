import ForcingData.Json.Parser
import ForcingData.Text.Affix

/-! # Reading decimal numbers

A decimal is a sign, digits with or without a point among them, and perhaps a power of ten; the
double for it is the nearest one. `readNumber?` also knows infinity and the value that is no
number. Whole numbers are read in any base up to sixteen. -/

namespace ForcingData.Decimal

/-- A sign that may be left out; does it say minus? -/
def dropSign : List Char → Bool × List Char
  | '+' :: rest => (false, rest)
  | '-' :: rest => (true, rest)
  | cs => (false, cs)

/-- The digits of a whole number in some base; there must be one. -/
def natOfDigits? (base : Nat) (cs : List Char) : Option Nat :=
  if cs = [] then none
  else
    cs.foldlM (fun n c =>
      match Json.hexDigit? c with
      | some d => if d < base then some (n * base + d) else none
      | none => none) 0

/-- A whole number in decimal, with or without a sign. -/
def int? (cs : List Char) : Option Int :=
  let (negative, digits) := dropSign cs
  (natOfDigits? 10 digits).map fun n => if negative then -(n : Int) else n

/-- A whole number below `2 ^ 64`, with or without a plus sign. -/
def word? : List Char → Option Nat
  | '-' :: _ => none
  | cs => (int? cs).bind fun n => if Word.fits 64 n then some n.toNat else none

/-- The double next to `n · 10 ^ e`. -/
def nearest (n : Nat) (e : Int) : Float :=
  let magnitude := ((Nat.toDigits 10 n).length : Int) + e
  if n = 0 || magnitude < -400 then 0.0
  else if 400 < magnitude then 1.0 / 0.0
  else
    match e with
    | .ofNat k => Float.ofScientific n false k
    | .negSucc k => Float.ofScientific n true (k + 1)

def exponent? : List Char → Option Int
  | [] => some 0
  | c :: cs => if c = 'e' || c = 'E' then int? cs else none

def unsigned? (cs : List Char) : Option Float := do
  let whole := cs.takeWhile Char.isDigit
  let (fraction, rest) := match cs.dropWhile Char.isDigit with
    | '.' :: rest => (rest.takeWhile Char.isDigit, rest.dropWhile Char.isDigit)
    | rest => ([], rest)
  let n ← natOfDigits? 10 (whole ++ fraction)
  return nearest n ((← exponent? rest) - fraction.length)

/-- A finite decimal, or one that is too large for a double. -/
def float? (cs : List Char) : Option Float :=
  let (negative, cs) := dropSign cs
  (unsigned? cs).map fun f => if negative then -f else f

/-- A number in digits or in words. -/
def readNumber? (cs : List Char) : Option Float :=
  let (negative, word) := dropSign cs
  let word := String.ofList (word.map Char.toLower)
  if word = "inf" || word = "infinity" then some (if negative then -1.0 / 0.0 else 1.0 / 0.0)
  else if word = "nan" then some (0.0 / 0.0)
  else float? cs

end ForcingData.Decimal
