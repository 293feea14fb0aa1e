import ForcingData.Text.Blank
import ForcingData.Time.Instant

/-! # Reading instants

`Instant.parse?` reads `2000-01-31T12:00:00.5`; numbers may be shorter, and blanks may stand before
them and before the signs between them. A year with a sign may have any number of digits.
`Instant.parseUtc?` reads such a time with a zone, after a blank as well, as universal time.
`Instant.ofStamp?` reads `2000-01-31T12:00:00Z`, with blanks before the numbers only. -/

namespace ForcingData.Instant
open Text

/-- Skips blanks and reads the digits of a number, at least one and at most `max` of them. -/
def number? (max : Nat) (cs : List Char) : Option (Nat × List Char) :=
  let cs := cs.dropWhile isBlank
  let digits := (cs.take max).takeWhile Char.isDigit
  if digits = [] then none
  else some (digits.foldl (fun n c => n * 10 + (c.toNat - '0'.toNat)) 0, cs.drop digits.length)

/-- A year: up to four digits, or a sign and any number of them. -/
def year? (cs : List Char) : Option (Int × List Char) :=
  match cs.dropWhile isBlank with
  | '-' :: c :: rest =>
    if c.isDigit then
      (number? (rest.length + 1) (c :: rest)).map fun (n, rest) => (-(n : Int), rest)
    else none
  | '+' :: c :: rest =>
    if c.isDigit then
      (number? (rest.length + 1) (c :: rest)).map fun (n, rest) => ((n : Int), rest)
    else none
  | cs => (number? 4 cs).map fun (n, rest) => ((n : Int), rest)

/-- Skips blanks and reads a sign. -/
def sign? (sign : Char) (cs : List Char) : Option (List Char) :=
  match cs.dropWhile isBlank with
  | c :: rest => if c = sign then some rest else none
  | [] => none

/-- The digits after a point, the first nine of which count. -/
def fraction? (cs : List Char) : Option (Nat × List Char) :=
  match cs with
  | '.' :: rest =>
    let digits := rest.takeWhile Char.isDigit
    if digits = [] then none
    else
      let first := digits.take 9
      let value := first.foldl (fun n c => n * 10 + (c.toNat - '0'.toNat)) 0
      some (value * Nat.pow 10 (9 - first.length), rest.drop digits.length)
  | _ => some (0, cs)

/-- A day that exists, and that times are kept for. -/
def date? (cs : List Char) : Option (Date × List Char) := do
  let (year, cs) ← year? cs
  let (month, cs) ← number? 2 (← sign? '-' cs)
  let (day, cs) ← number? 2 (← sign? '-' cs)
  let date : Date := ⟨year, month, day⟩
  if date.isValid && date.inRange then some (date, cs) else none

/-- Seconds and nanoseconds of the day; the second 60 is a leap second. -/
def time? (cs : List Char) : Option ((Nat × Nat) × List Char) := do
  let (hour, cs) ← number? 2 cs
  let (minute, cs) ← number? 2 (← sign? ':' cs)
  let (second, cs) ← number? 2 (← sign? ':' cs)
  let (nano, cs) ← fraction? cs
  if 23 < hour || 59 < minute || 60 < second then none
  let leap := if second = 60 then 1 else 0
  return ((hour * 3600 + minute * 60 + (second - leap), leap * billion + nano),
    cs.dropWhile isBlank)

def parse? (s : String) : Option Instant := do
  let (date, cs) ← date? s.toList
  let ((second, nano), cs) ← time? (← sign? 'T' cs)
  if cs = [] then some ⟨date, second, nano⟩ else none

/-- Two digits. -/
def twoDigits? : List Char → Option (Nat × List Char)
  | a :: b :: rest =>
    if a.isDigit && b.isDigit then
      some ((a.toNat - '0'.toNat) * 10 + (b.toNat - '0'.toNat), rest)
    else none
  | _ => none

/-- The seconds that a zone is ahead of universal time. -/
def zone? (cs : List Char) : Option (Int × List Char) :=
  match cs with
  | c :: rest =>
    if (cs.take 3).map Char.toLower = ['u', 't', 'c'] then some (0, cs.drop 3)
    else if c = 'Z' || c = 'z' then some (0, rest)
    else if c = '+' || c = '-' || c = '\u2212' then do
      let (hours, rest) ← twoDigits? rest
      let (minutes, rest) ← twoDigits? (rest.dropWhile fun c => c == ':' || isBlank c)
      if 59 < minutes || 23 < hours then none
      let seconds : Int := hours * 3600 + minutes * 60
      return (if c = '+' then seconds else -seconds, rest)
    else none
  | [] => none

def parseUtc? (s : String) : Option Instant := do
  let (date, cs) ← date? s.toList
  match cs with
  | c :: cs =>
    if c = 't' || c = 'T' || c = ' ' then
      let ((second, nano), cs) ← time? cs
      let (ahead, cs) ← zone? cs
      if cs.dropWhile isBlank = [] then Instant.shift? ⟨date, second, nano⟩ (-ahead) else none
    else none
  | [] => none

/-! ### Stamps -/

/-- Reads one character. -/
def mark? (mark : Char) : List Char → Option (List Char)
  | [] => none
  | c :: rest => if c = mark then some rest else none

/-- Reads a number of at most two digits and the character after it. -/
def field? (mark : Char) (cs : List Char) : Option (Nat × List Char) := do
  let (n, cs) ← number? 2 cs
  return (n, ← mark? mark cs)

/-- A time to the second, on a day that exists and that times are kept for. -/
def ofStamp? (cs : List Char) : Option Instant := do
  let (year, cs) ← year? cs
  let (month, cs) ← field? '-' (← mark? '-' cs)
  let (day, cs) ← field? 'T' cs
  let (hour, cs) ← field? ':' cs
  let (minute, cs) ← field? ':' cs
  let (second, cs) ← field? 'Z' cs
  let date : Date := ⟨year, month, day⟩
  let leap := if second = 60 then 1 else 0
  if cs = [] && date.isValid && date.inRange && hour < 24 && minute < 60 && second ≤ 60 then
    some ⟨date, hour * 3600 + minute * 60 + (second - leap), leap * billion⟩
  else none

end ForcingData.Instant
