/-! # Punycode

Texts of any script in letters, digits and hyphens: first the ASCII characters, then, after a
hyphen, where and which the others are. -/

namespace ForcingData.Url.Punycode

def digitChar (d : Nat) : Char :=
  if d < 26 then Char.ofNat ('a'.toNat + d) else Char.ofNat ('0'.toNat + (d - 26))

def digitValue? (c : Char) : Option Nat :=
  if 'a' ≤ c && c ≤ 'z' then some (c.toNat - 'a'.toNat)
  else if 'A' ≤ c && c ≤ 'Z' then some (c.toNat - 'A'.toNat)
  else if '0' ≤ c && c ≤ '9' then some (c.toNat - '0'.toNat + 26)
  else none

/-- Where the digit at place `k` ends a number. -/
def threshold (k bias : Nat) : Nat :=
  if k ≤ bias then 1 else if bias + 26 ≤ k then 26 else k - bias

theorem threshold_pos (k bias : Nat) : 0 < threshold k bias := by
  unfold threshold
  split
  · omega
  · split <;> omega

theorem threshold_le (k bias : Nat) : threshold k bias ≤ 26 := by
  unfold threshold
  split
  · omega
  · split <;> omega

def shrink (k delta : Nat) : Nat → Nat
  | 0 => k + 36 * delta / (delta + 38)
  | fuel + 1 =>
    if 455 < delta then shrink (k + 36) (delta / 35) fuel else k + 36 * delta / (delta + 38)

/-- The bias after a number `delta`, of `points` characters. -/
def adapt (delta points : Nat) (first : Bool) : Nat :=
  let delta := if first then delta / 700 else delta / 2
  shrink 0 (delta + delta / points) 40

/-! ### Encoding -/

/-- The digits of a number from place `k` on, lowest first. -/
def numberChars (bias k q : Nat) : List Char :=
  let t := threshold k bias
  if q < t then [digitChar q]
  else digitChar (t + (q - t) % (36 - t)) :: numberChars bias (k + 36) ((q - t) / (36 - t))
termination_by q
decreasing_by
  have hpos := threshold_pos k bias
  have hle := Nat.div_le_self (q - threshold k bias) (36 - threshold k bias)
  omega

structure Encoding where
  output : List Char
  delta : Nat
  bias : Nat
  handled : Nat

/-- Passes one character of the text while the code point `n` is being placed. -/
def Encoding.pass (basic n : Nat) (e : Encoding) (c : Char) : Encoding :=
  if c.toNat < n then { e with delta := e.delta + 1 }
  else if c.toNat = n then
    { output := e.output ++ numberChars e.bias 36 e.delta
      delta := 0
      bias := adapt e.delta (e.handled + 1) (e.handled = basic)
      handled := e.handled + 1 }
  else e

/-- Places the code points from `n` on, which come in ascending order. -/
def Encoding.place (cs : List Char) (basic : Nat) : Nat → List Nat → Encoding → Encoding
  | _, [], e => e
  | n, m :: ms, e =>
    let e := { e with delta := e.delta + (m - n) * (e.handled + 1) }
    let e := cs.foldl (Encoding.pass basic m) e
    place cs basic (m + 1) ms { e with delta := e.delta + 1 }

def sortedDistinct (ns : List Nat) : List Nat :=
  ns.mergeSort.foldr (fun n acc => if acc.head? = some n then acc else n :: acc) []

def encode (cs : List Char) : List Char :=
  let basic := cs.filter (·.toNat < 0x80)
  let others := sortedDistinct ((cs.filter (0x80 ≤ ·.toNat)).map Char.toNat)
  let e := Encoding.place cs basic.length 0x80 others ⟨[], 0, 72, basic.length⟩
  basic ++ (if basic.isEmpty then [] else ['-']) ++ e.output

/-! ### Decoding -/

/-- Reads one number, from place `k` on: its value added to `i`, and the digits after it. -/
def number? (bias k weight i : Nat) : List Char → Option (Nat × List Char)
  | [] => none
  | c :: rest => do
    let d ← digitValue? c
    let t := threshold k bias
    if d < t then return (i + d * weight, rest)
    else number? bias (k + 36) (weight * (36 - t)) (i + d * weight) rest

/-- Puts the characters that the digits name among those in `output`. -/
def insertAll? : Nat → List Char → Nat → Nat → Nat → List Char → Option (List Char)
  | 0, _, _, _, _, output => some output
  | fuel + 1, digits, n, i, bias, output =>
    if digits.isEmpty then some output
    else do
      let (i', rest) ← number? bias 36 1 i digits
      let size := output.length + 1
      let n := n + i' / size
      if 0x10ffff < n || (0xd800 ≤ n && n < 0xe000) then none
      let at_ := i' % size
      insertAll? fuel rest n (at_ + 1) (adapt (i' - i) size (i = 0))
        (output.take at_ ++ Char.ofNat n :: output.drop at_)

def decode? (cs : List Char) : Option (List Char) :=
  let tail := (cs.reverse.takeWhile (· != '-')).reverse
  let basic := cs.take (cs.length - tail.length - 1)
  let digits := if tail.length = cs.length then cs else tail
  if basic.all (·.toNat < 0x80) then
    insertAll? (digits.length + 1) digits 0x80 0 72 basic
  else none

end ForcingData.Url.Punycode
