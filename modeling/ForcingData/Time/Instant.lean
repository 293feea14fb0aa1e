import ForcingData.Time.Date

/-! # Instants

A day and a time of day, to the nanosecond. A leap second is the second before it with a thousand
million nanoseconds or more. Instants are ordered, subtracted, and written as texts. -/

namespace ForcingData

structure Instant where
  date : Date
  /-- The second of the day, below 86400. -/
  second : Nat
  /-- Below 10 ^ 9, and in a leap second below 2 * 10 ^ 9. -/
  nano : Nat
deriving DecidableEq, Repr, Inhabited

namespace Instant

def billion : Nat := 1000000000

/-- By year, month, day, second and nanosecond. -/
def le (a b : Instant) : Bool :=
  let key (t : Instant) : List Int :=
    [t.date.year, t.date.month, t.date.day, t.second, t.nano]
  !(compare (key a) (key b) == .gt)

/-- The nanoseconds from `b` to `a`; a leap second between them counts. -/
def since (a b : Instant) : Int :=
  let days := a.date.days - b.date.days
  let leap : Int :=
    if b.second < a.second then (if billion ≤ b.nano then 1 else 0)
    else if a.second < b.second then (if billion ≤ a.nano then -1 else 0)
    else 0
  let seconds := days * 86400 + ((a.second : Int) - b.second) + leap
  seconds * billion + ((a.nano : Int) - b.nano)

def hours (n : Int) : Int := n * 3600 * billion
def days (n : Int) : Int := hours (n * 24)

/-- The earliest of some instants. -/
def earliest? : List Instant → Option Instant
  | [] => none
  | t :: ts => some (ts.foldl (fun a b => if a.le b then a else b) t)

/-- The latest of some instants. -/
def latest? : List Instant → Option Instant
  | [] => none
  | t :: ts => some (ts.foldl (fun a b => if a.le b then b else a) t)

/-- The instant a day earlier, if times are kept for it. A leap second counts as the second after
it, which may be on the next day. -/
def dayBefore? (t : Instant) : Option Instant :=
  if t.nano < billion then
    let date := t.date.pred
    if date.inRange then some { t with date } else none
  else if t.second + 1 = 86400 then some ⟨t.date, 0, t.nano - billion⟩
  else
    let date := t.date.pred
    if date.inRange then some ⟨date, t.second + 1, t.nano - billion⟩ else none

/-- Moves by less than a day, to an earlier or later time. -/
def shift? (t : Instant) (seconds : Int) : Option Instant :=
  let s := (t.second : Int) + seconds
  let moved : Instant :=
    if s < 0 then ⟨t.date.pred, (s + 86400).toNat, t.nano⟩
    else if 86400 ≤ s then ⟨t.date.succ, (s - 86400).toNat, t.nano⟩
    else ⟨t.date, s.toNat, t.nano⟩
  if moved.date.inRange then some moved else none

/-! ### Writing -/

/-- A number with at least `width` digits. -/
def padded (width n : Nat) : String :=
  let digits := Nat.toDigits 10 n
  String.ofList (List.replicate (width - digits.length) '0' ++ digits)

/-- Four digits, or a sign and at least four digits for years that do not have four. -/
def yearText (year : Int) : String :=
  if 0 ≤ year && year ≤ 9999 then padded 4 year.natAbs
  else (if year < 0 then "-" else "+") ++ padded 4 year.natAbs

def dateText (d : Date) : String :=
  s!"{yearText d.year}-{padded 2 d.month}-{padded 2 d.day}"

/-- A fraction of a second in three, six or nine digits, as many as it takes. -/
def fractionText (nano : Nat) : String :=
  if nano = 0 then ""
  else if nano % 1000000 = 0 then "." ++ padded 3 (nano / 1000000)
  else if nano % 1000 = 0 then "." ++ padded 6 (nano / 1000)
  else "." ++ padded 9 nano

/-- Such as `2000-01-31T12:00:00.500`; a leap second is the second 60. -/
def text (t : Instant) : String :=
  let leap := if billion ≤ t.nano then 1 else 0
  let hour := t.second / 3600
  let minute := t.second / 60 % 60
  let second := t.second % 60 + leap
  let nano := t.nano - leap * billion
  s!"{dateText t.date}T{padded 2 hour}:{padded 2 minute}:{padded 2 second}{fractionText nano}"

/-- The text of an instant of universal time. -/
def utcText (t : Instant) : String := t.text ++ "Z"

end Instant
end ForcingData
