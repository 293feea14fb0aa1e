import ForcingData.Decimal.Shortest

/-! # Decimals without exponents

A double in the fewest digits that read back, all of them around the point; a whole number has no
point. -/

namespace ForcingData.Decimal

def positionalChars (d : Scaled) : List Char :=
  let digits := Nat.toDigits 10 d.digits
  let point := (digits.length : Int) + d.exponent
  if 0 ≤ d.exponent then digits ++ List.replicate d.exponent.toNat '0'
  else if 0 < point then digits.take point.toNat ++ '.' :: digits.drop point.toNat
  else '0' :: '.' :: List.replicate (-point).toNat '0' ++ digits

def positional (f : Float) : String :=
  let sign := if Word.count 63 ≤ f.toBits.toNat then "-" else ""
  if f.isNaN then "NaN"
  else if f.isInf then sign ++ "inf"
  else
    sign ++ match Binary.ofBits? f.toBits.toNat with
      | some b => String.ofList (positionalChars (shortest b))
      | none => "0"

end ForcingData.Decimal
