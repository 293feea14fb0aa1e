import ForcingData.Word

/-! # Shortest decimals

A finite double stands for an interval of numbers: those that round to it. `shortest` gives the
decimal with the fewest digits in that interval, of two such the nearer one. -/

namespace ForcingData.Decimal

/-- The number `digits · 10 ^ exponent`. -/
structure Scaled where
  digits : Nat
  exponent : Int
deriving DecidableEq, Repr

/-- The number `num / den`, with `den` positive. -/
structure Ratio where
  num : Nat
  den : Nat
deriving Repr

namespace Ratio

/-- `m · b ^ e`. -/
def scaled (m b : Nat) : Int → Ratio
  | .ofNat e => ⟨m * Nat.pow b e, 1⟩
  | .negSucc e => ⟨m, Nat.pow b (e + 1)⟩

def lt (x y : Ratio) : Bool := x.num * y.den < y.num * x.den
def le (x y : Ratio) : Bool := x.num * y.den ≤ y.num * x.den

/-- The distance of two numbers. -/
def dist (x y : Ratio) : Ratio :=
  ⟨x.num * y.den - y.num * x.den + (y.num * x.den - x.num * y.den), x.den * y.den⟩

end Ratio

/-- A positive double: `mantissa · 2 ^ exponent`, a smaller gap lying below it if `narrowBelow`. -/
structure Binary where
  mantissa : Nat
  exponent : Int
  narrowBelow : Bool

namespace Binary

/-- The double with these bits, sign dropped; `none` for zero, infinities and what is no number. -/
def ofBits? (bits : Nat) : Option Binary :=
  let e : Nat := bits / Word.count 52 % Word.count 11
  let f : Nat := bits % Word.count 52
  if e = 2047 then none
  else if e = 0 then (if f = 0 then none else some ⟨f, -1074, false⟩)
  else some ⟨Word.count 52 + f, (e : Int) - 1075, f = 0 && 1 < e⟩

def value (b : Binary) : Ratio := .scaled b.mantissa 2 b.exponent

/-- The number half way to the double above. -/
def upper (b : Binary) : Ratio := .scaled (2 * b.mantissa + 1) 2 (b.exponent - 1)

/-- The number half way to the double below. -/
def lower (b : Binary) : Ratio :=
  if b.narrowBelow then .scaled (4 * b.mantissa - 1) 2 (b.exponent - 2)
  else .scaled (2 * b.mantissa - 1) 2 (b.exponent - 1)

/-- Does the number round to this double? The ends of the interval do if the mantissa is even. -/
def holds (b : Binary) (x : Ratio) : Bool :=
  if b.mantissa % 2 = 0 then b.lower.le x && x.le b.upper
  else b.lower.lt x && x.lt b.upper

end Binary

def Scaled.value (d : Scaled) : Ratio := .scaled d.digits 10 d.exponent

/-- The greatest `e` with `10 ^ e ≤ x`, searched downwards from `e`. -/
def leadingExponent (x : Ratio) : Nat → Int → Int
  | 0, e => e
  | fuel + 1, e => if (Ratio.scaled 1 10 e).le x then e else leadingExponent x fuel (e - 1)

/-- The multiples of `10 ^ e` next to `x`: the greatest not above it, and the one after that. -/
def neighbours (x : Ratio) (e : Int) : Scaled × Scaled :=
  let below := match e with
    | .ofNat k => x.num / (x.den * Nat.pow 10 k)
    | .negSucc k => x.num * Nat.pow 10 (k + 1) / x.den
  (⟨below, e⟩, ⟨below + 1, e⟩)

/-- The neighbour that rounds to `b`; of two the nearer, and of two as near the even one. -/
def choose (b : Binary) (lo hi : Scaled) : Option Scaled :=
  match b.holds lo.value, b.holds hi.value with
  | true, true =>
    let dl := lo.value.dist b.value
    let dh := hi.value.dist b.value
    if dl.lt dh then some lo
    else if dh.lt dl then some hi
    else if lo.digits % 2 = 0 then some lo else some hi
  | true, false => some lo
  | false, true => some hi
  | false, false => none

/-- The first grid with a hit, the grids growing finer. -/
def firstHit (b : Binary) : Nat → Int → Scaled
  | 0, e => (neighbours b.value e).1
  | fuel + 1, e =>
    let (lo, hi) := neighbours b.value e
    (choose b lo hi).getD (firstHit b fuel (e - 1))

/-- Moves zeros at the end of the digits into the exponent. -/
def dropZeros : Nat → Scaled → Scaled
  | 0, d => d
  | fuel + 1, d =>
    if d.digits ≠ 0 && d.digits % 10 = 0 then dropZeros fuel ⟨d.digits / 10, d.exponent + 1⟩ else d

/-- The fewest digits that read back as `b`; seventeen always do. -/
def shortest (b : Binary) : Scaled :=
  let e := leadingExponent b.value 640 308
  dropZeros 20 (firstHit b 17 e)

end ForcingData.Decimal
