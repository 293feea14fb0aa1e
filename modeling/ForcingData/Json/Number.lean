import ForcingData.Json.Basic

/-! # Numbers in JSON

Reading: a whole number that fits stays exact; any other number is taken from its first digits, as
many as fit into 64 bits, with a single rounding for the power of ten.
Writing: a double takes the fewest digits that read back, is written positionally from `1e-5` up to
`1e16`, and always shows a point or an exponent. -/

namespace ForcingData.Json

/-- A number as it is written: sign, whole digits, digits after the point, exponent. -/
structure Lexeme where
  negative : Bool
  whole : List Nat
  fraction : Option (List Nat)
  exponent : Option (Bool × List Nat)

namespace Lexeme

def maxSignificand : Nat := Word.greatest 64

/-- Appends digits to a significand while it fits; the second part holds the digits left over. -/
def significand (s : Nat) : List Nat → Nat × List Nat
  | [] => (s, [])
  | d :: ds => if s * 10 + d ≤ maxSignificand then significand (s * 10 + d) ds else (s, d :: ds)

def maxExponent : Nat := Word.greatest 31

/-- The exponent, unless it is too large to count with. -/
def exponentOf? (ds : List Nat) : Option Nat :=
  ds.foldl (fun acc d => acc.bind fun e =>
    if e * 10 + d ≤ maxExponent then some (e * 10 + d) else none) (some 0)

def powerOfTen (e : Nat) : Float := Float.ofScientific 1 false e

/-- `f · 10 ^ e`; `none` if that is too large. Far negative exponents are applied in portions. -/
def scale? : Nat → Float → Int → Option Float
  | 0, f, _ => some f
  | fuel + 1, f, e =>
    if e.natAbs ≤ 308 then
      if 0 ≤ e then
        let r := f * powerOfTen e.natAbs
        if r.isInf then none else some r
      else some (f / powerOfTen e.natAbs)
    else if f == 0.0 then some f
    else if 0 ≤ e then none
    else scale? fuel (f / powerOfTen 308) (e + 308)

def signed (negative : Bool) (f : Float) : Float := if negative then -f else f

/-- The double for a significand and a power of ten. -/
def float? (negative : Bool) (s : Nat) (e : Int) : Option Number :=
  (scale? 4 s.toUInt64.toFloat e).map fun f => .float (signed negative f)

/-- The number that is written, if it is in range. -/
def number? (l : Lexeme) : Option Number :=
  let (s, rest) := significand 0 l.whole
  match l.fraction, l.exponent with
  | none, none =>
    if rest ≠ [] then float? l.negative s rest.length
    else if !l.negative then some (.int s)
    else if s = 0 || Word.count 63 < s then some (.float (-s.toUInt64.toFloat))
    else some (.int (-s))
  | fraction, exponent =>
    let digits := fraction.getD []
    let (s, unread) := significand s digits
    let e : Int := (rest.length : Int) - ((digits.length : Int) - unread.length)
    match exponent with
    | none => float? l.negative s e
    | some (down, ds) =>
      match exponentOf? ds with
      | some x => float? l.negative s (if down then e - x else e + x)
      | none => if s ≠ 0 && !down then none else some (.float (signed l.negative 0.0))

end Lexeme

/-! ### Writing -/

def zeros (n : Nat) : List Char := List.replicate n '0'

/-- A decimal positionally, if its point is not too far from its digits, else with an exponent. -/
def decimalChars (d : Decimal.Scaled) : List Char :=
  let digits := Nat.toDigits 10 d.digits
  let len : Int := digits.length
  let point := len + d.exponent
  if 0 ≤ d.exponent && point ≤ 16 then digits ++ zeros d.exponent.toNat ++ ['.', '0']
  else if 0 < point && point ≤ 16 then
    digits.take point.toNat ++ '.' :: digits.drop point.toNat
  else if -5 < point && point ≤ 0 then ['0', '.'] ++ zeros (-point).toNat ++ digits
  else
    let exponent := 'e' :: (if 0 < point then ['+'] else []) ++ (toString (point - 1)).toList
    match digits with
    | [d] => d :: exponent
    | d :: ds => d :: '.' :: ds ++ exponent
    | [] => []

def floatChars (f : Float) : List Char :=
  let bits := f.toBits.toNat
  let sign := if Word.count 63 ≤ bits then ['-'] else []
  sign ++ match Decimal.Binary.ofBits? bits with
    | some b => decimalChars (Decimal.shortest b)
    | none => ['0', '.', '0']

def Number.chars : Number → List Char
  | .int n => (toString n).toList
  | .float f => if f.isFinite then floatChars f else ['n', 'u', 'l', 'l']

end ForcingData.Json
