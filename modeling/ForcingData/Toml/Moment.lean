import ForcingData.Decimal.Reading
import ForcingData.Time.Date

/-! # Dates and times in TOML

`Toml.moment?` reads a date, a time of day, or both with or without a zone. It answers the text that
stands for it: `T` between date and time, `Z` for the zone, no zeros at the end of a fraction. -/

namespace ForcingData.Toml

def isDate (cs : List Char) : Bool :=
  match cs with
  | [a, b, c, d, '-', e, f, '-', g, h] =>
    match Decimal.natOfDigits? 10 [a, b, c, d], Decimal.natOfDigits? 10 [e, f],
      Decimal.natOfDigits? 10 [g, h] with
    | some year, some month, some day => Date.isValid ⟨year, month, day⟩
    | _, _, _ => false
  | _ => false

def isHourMinute : List Char → Bool
  | [a, b, ':', c, d] =>
    (Decimal.natOfDigits? 10 [a, b]).any (· ≤ 23) && (Decimal.natOfDigits? 10 [c, d]).any (· ≤ 59)
  | _ => false

def isTime : List Char → Bool
  | a :: b :: c :: d :: e :: ':' :: second =>
    isHourMinute [a, b, c, d, e] && second.length = 2
      && (Decimal.natOfDigits? 10 second).any (· ≤ 60)
  | _ => false

/-- The digits of a fraction after the point; nine of them count. -/
def fraction (digits : List Char) : List Char :=
  match ((digits.take 9).reverse.dropWhile (· == '0')).reverse with
  | [] => []
  | kept => '.' :: kept

def zone? : List Char → Option (List Char)
  | [] => some []
  | ['Z'] | ['z'] => some ['Z']
  | sign :: hourMinute =>
    if (sign = '+' || sign = '-') && isHourMinute hourMinute then some (sign :: hourMinute)
    else none

/-- A time of day with a fraction or without, and what follows it. -/
def timeOfDay? (cs : List Char) : Option (List Char × List Char) :=
  if !isTime (cs.take 8) then none
  else
    match cs.drop 8 with
    | '.' :: rest =>
      let digits := rest.takeWhile Char.isDigit
      if digits = [] then none
      else some (cs.take 8 ++ fraction digits, rest.drop digits.length)
    | rest => some (cs.take 8, rest)

def moment? (cs : List Char) : Option (List Char) :=
  if isDate (cs.take 10) then
    match cs.drop 10 with
    | [] => some cs
    | c :: rest =>
      if c = 'T' || c = 't' || c = ' ' then do
        let (time, rest) ← timeOfDay? rest
        return cs.take 10 ++ 'T' :: time ++ (← zone? rest)
      else none
  else
    match timeOfDay? cs with
    | some (time, []) => some time
    | _ => none

end ForcingData.Toml
