/-! # Percent encoding

A byte that may not stand for itself is written as `%` and two hexadecimal digits. Which bytes those
are depends on the place in a URL; `encodeComponent` spares letters, digits and `-._~` alone. -/

namespace ForcingData.Url

/-- The digits of a byte in capital letters. -/
def hexDigitUpper (n : Nat) : Char := ((Nat.toDigits 16 (n % 16)).headD '0').toUpper

def escapeByte (b : UInt8) : List Char :=
  ['%', hexDigitUpper (b.toNat / 16), hexDigitUpper b.toNat]

/-- The UTF-8 bytes of a text. -/
def utf8 (cs : List Char) : List UInt8 := cs.flatMap String.utf8EncodeChar

/-- Escapes the bytes of the characters that `escape` holds for, and of all beyond ASCII. -/
def percentEncode (escape : Char → Bool) (cs : List Char) : List Char :=
  cs.flatMap fun c =>
    if c.toNat < 0x80 && !escape c then [c]
    else (String.utf8EncodeChar c).flatMap escapeByte

def isUnreserved (c : Char) : Bool :=
  c.isAlphanum || c == '-' || c == '.' || c == '_' || c == '~'

def encodeComponent (s : String) : String :=
  String.ofList (percentEncode (!isUnreserved ·) s.toList)

/-! ### Where which characters are escaped -/

def escapedControl (c : Char) : Bool := c.toNat < 0x20 || c.toNat = 0x7f

def escapedInFragment (c : Char) : Bool := escapedControl c || " \"<>`".toList.contains c

def escapedInPath (c : Char) : Bool := escapedInFragment c || "#?\x7b\x7d".toList.contains c

def escapedInUserInfo (c : Char) : Bool := escapedInPath c || "/:;=@[\\]^|".toList.contains c

def escapedInQuery (special : Bool) (c : Char) : Bool :=
  escapedControl c || " \"#<>".toList.contains c || (special && c == '\'')

/-! ### Decoding -/

def hexValue? (c : Char) : Option Nat :=
  if '0' ≤ c && c ≤ '9' then some (c.toNat - '0'.toNat)
  else if 'a' ≤ c && c ≤ 'f' then some (c.toNat - 'a'.toNat + 10)
  else if 'A' ≤ c && c ≤ 'F' then some (c.toNat - 'A'.toNat + 10)
  else none

/-- The bytes that a text stands for; a `%` without two digits after it stands for itself. -/
def percentDecode : List Char → List UInt8
  | '%' :: a :: b :: rest =>
    match hexValue? a, hexValue? b with
    | some x, some y => (x * 16 + y).toUInt8 :: percentDecode rest
    | _, _ => '%'.toUInt8 :: percentDecode (a :: b :: rest)
  | c :: rest => String.utf8EncodeChar c ++ percentDecode rest
  | [] => []

/-- The text with these UTF-8 bytes. -/
def textOfBytes? (bytes : List UInt8) : Option String :=
  String.fromUTF8? ⟨bytes.toArray⟩

end ForcingData.Url
