import ForcingData.Json.Number

/-! # Reading JSON

`Tree.parse?` reads one value and nothing after it but blanks. -/

namespace ForcingData.Json

def isSpace (c : Char) : Bool := c == ' ' || c == '\t' || c == '\n' || c == '\r'

def skipSpace (cs : List Char) : List Char := cs.dropWhile isSpace

/-! ### Texts -/

def hexDigit? (c : Char) : Option Nat :=
  if '0' ≤ c && c ≤ '9' then some (c.toNat - '0'.toNat)
  else if 'a' ≤ c && c ≤ 'f' then some (c.toNat - 'a'.toNat + 10)
  else if 'A' ≤ c && c ≤ 'F' then some (c.toNat - 'A'.toNat + 10)
  else none

/-- Four hexadecimal digits. -/
def hex4? (a b c d : Char) : Option Nat := do
  return ((← hexDigit? a) * 16 + (← hexDigit? b)) * 256 + (← hexDigit? c) * 16 + (← hexDigit? d)

def escaped? : Char → Option Nat
  | '"' => some 0x22
  | '\\' => some 0x5c
  | '/' => some 0x2f
  | 'b' => some 8
  | 'f' => some 0xc
  | 'n' => some 0xa
  | 'r' => some 0xd
  | 't' => some 9
  | _ => none

/-- The rest of a text after its opening quote, as code units: characters, or halves of a pair. -/
def textUnits : List Char → Option (List Nat × List Char)
  | [] => none
  | '"' :: rest => some ([], rest)
  | '\\' :: 'u' :: a :: b :: c :: d :: rest => do
    let n ← hex4? a b c d
    let (units, rest) ← textUnits rest
    return (n :: units, rest)
  | '\\' :: e :: rest => do
    let n ← escaped? e
    let (units, rest) ← textUnits rest
    return (n :: units, rest)
  | c :: rest =>
    if c.toNat < 0x20 then none
    else do
      let (units, rest) ← textUnits rest
      return (c.toNat :: units, rest)

def isHighSurrogate (n : Nat) : Bool := 0xd800 ≤ n && n < 0xdc00
def isLowSurrogate (n : Nat) : Bool := 0xdc00 ≤ n && n < 0xe000

/-- The characters of a text, if every half of a pair has its other half. -/
def unitChars? : List Nat → Option (List Char)
  | [] => some []
  | h :: l :: rest =>
    if isHighSurrogate h then
      if isLowSurrogate l then
        (unitChars? rest).map (Char.ofNat (0x10000 + (h - 0xd800) * 0x400 + (l - 0xdc00)) :: ·)
      else none
    else if isLowSurrogate h then none
    else (unitChars? (l :: rest)).map (Char.ofNat h :: ·)
  | [n] => if isHighSurrogate n || isLowSurrogate n then none else some [Char.ofNat n]

def parseText (cs : List Char) : Option (Option String × List Char) :=
  (textUnits cs).map fun (units, rest) => ((unitChars? units).map String.ofList, rest)

/-! ### Numbers -/

def isDecimal (c : Char) : Bool := '0' ≤ c && c ≤ '9'

def spanDigits (cs : List Char) : List Nat × List Char :=
  ((cs.takeWhile isDecimal).map fun c => c.toNat - '0'.toNat, cs.dropWhile isDecimal)

def parseExponent (cs : List Char) : Option (Option (Bool × List Nat) × List Char) :=
  match cs with
  | e :: rest =>
    if e == 'e' || e == 'E' then
      let (down, rest) := match rest with
        | '+' :: rest => (false, rest)
        | '-' :: rest => (true, rest)
        | rest => (false, rest)
      match spanDigits rest with
      | ([], _) => none
      | (ds, rest) => some (some (down, ds), rest)
    else some (none, cs)
  | [] => some (none, cs)

def parseLexeme (cs : List Char) : Option (Lexeme × List Char) := do
  let (negative, cs) := match cs with
    | '-' :: rest => (true, rest)
    | _ => (false, cs)
  let (whole, cs) := spanDigits cs
  if whole = [] || (whole.head? = some 0 && 1 < whole.length) then none
  let (fraction, cs) ← match cs with
    | '.' :: rest =>
      match spanDigits rest with
      | ([], _) => none
      | (ds, rest) => some (some ds, rest)
    | _ => some (none, cs)
  let (exponent, cs) ← parseExponent cs
  return (⟨negative, whole, fraction, exponent⟩, cs)

/-! ### Values -/

mutual

/-- One value; blanks before it are skipped. -/
def parseTree : Nat → List Char → Option (Tree × List Char)
  | 0, _ => none
  | fuel + 1, cs =>
    match skipSpace cs with
    | 'n' :: 'u' :: 'l' :: 'l' :: rest => some (.null, rest)
    | 't' :: 'r' :: 'u' :: 'e' :: rest => some (.bool true, rest)
    | 'f' :: 'a' :: 'l' :: 's' :: 'e' :: rest => some (.bool false, rest)
    | '"' :: rest => (parseText rest).map fun (s, rest) => (.text s, rest)
    | '[' :: rest =>
      match skipSpace rest with
      | ']' :: rest => some (.array [], rest)
      | rest => (parseItems fuel rest).map fun (items, rest) => (.array items, rest)
    | '\x7b' :: rest =>
      match skipSpace rest with
      | '\x7d' :: rest => some (.object [], rest)
      | rest => (parseMembers fuel rest).map fun (ms, rest) => (.object ms, rest)
    | cs => (parseLexeme cs).map fun (l, rest) => (.number l.number?, rest)

/-- The items of an array that is not empty, up to its end. -/
def parseItems : Nat → List Char → Option (List Tree × List Char)
  | 0, _ => none
  | fuel + 1, cs => do
    let (item, rest) ← parseTree fuel cs
    match skipSpace rest with
    | ']' :: rest => some ([item], rest)
    | ',' :: rest =>
      let (items, rest) ← parseItems fuel rest
      some (item :: items, rest)
    | _ => none

/-- The members of an object that is not empty, up to its end. -/
def parseMembers : Nat → List Char → Option (List (Option String × Tree) × List Char)
  | 0, _ => none
  | fuel + 1, cs =>
    match skipSpace cs with
    | '"' :: rest => do
      let (name, rest) ← parseText rest
      match skipSpace rest with
      | ':' :: rest =>
        let (item, rest) ← parseTree fuel rest
        match skipSpace rest with
        | '\x7d' :: rest => some ([(name, item)], rest)
        | ',' :: rest =>
          let (members, rest) ← parseMembers fuel rest
          some ((name, item) :: members, rest)
        | _ => none
      | _ => none
    | _ => none

end

def Tree.parseChars? (cs : List Char) : Option Tree :=
  match parseTree (cs.length + 1) cs with
  | some (t, rest) => if skipSpace rest = [] then some t else none
  | none => none

def Tree.parse? (s : String) : Option Tree := Tree.parseChars? s.toList

/-- Reads bytes; they have to be UTF-8. -/
def Tree.ofBytes? (bytes : ByteArray) : Option Tree :=
  (String.fromUTF8? bytes).bind Tree.parse?

def Value.parse? (s : String) : Option Value :=
  (Tree.parse? s).bind (Tree.value? depthLimit)

end ForcingData.Json
