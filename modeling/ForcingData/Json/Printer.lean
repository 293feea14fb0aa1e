import ForcingData.Json.Number

/-! # Writing JSON

`Value.compact` writes no blank at all, `Value.pretty` one item or member to a line, indented by two
blanks. Control characters in texts are escaped, all others stand for themselves. -/

namespace ForcingData.Json

def hexDigitChar (n : Nat) : Char := (Nat.toDigits 16 (n % 16)).headD '0'

def escapeChar (c : Char) : List Char :=
  if c = '"' then ['\\', '"']
  else if c = '\\' then ['\\', '\\']
  else if c = '\n' then ['\\', 'n']
  else if c = '\r' then ['\\', 'r']
  else if c = '\t' then ['\\', 't']
  else if c.toNat = 8 then ['\\', 'b']
  else if c.toNat = 0xc then ['\\', 'f']
  else if c.toNat < 0x20 then
    ['\\', 'u', '0', '0', hexDigitChar (c.toNat / 16), hexDigitChar c.toNat]
  else [c]

def textChars (s : String) : List Char :=
  '"' :: s.toList.flatMap escapeChar ++ ['"']

mutual

def Value.compactChars : Value → List Char
  | .null => "null".toList
  | .bool true => "true".toList
  | .bool false => "false".toList
  | .number n => n.chars
  | .text s => textChars s
  | .array [] => ['[', ']']
  | .array (v :: vs) => '[' :: v.compactChars ++ compactItems vs
  | .object [] => ['\x7b', '\x7d']
  | .object (m :: ms) => '\x7b' :: textChars m.1 ++ ':' :: m.2.compactChars ++ compactMembers ms

/-- The items after the first, and the end of the array. -/
def compactItems : List Value → List Char
  | [] => [']']
  | v :: vs => ',' :: v.compactChars ++ compactItems vs

/-- The members after the first, and the end of the object. -/
def compactMembers : List (String × Value) → List Char
  | [] => ['\x7d']
  | m :: ms => ',' :: textChars m.1 ++ ':' :: m.2.compactChars ++ compactMembers ms

end

def newline (indent : Nat) : List Char := '\n' :: List.replicate (2 * indent) ' '

mutual

def Value.prettyChars (indent : Nat) : Value → List Char
  | .null => "null".toList
  | .bool true => "true".toList
  | .bool false => "false".toList
  | .number n => n.chars
  | .text s => textChars s
  | .array [] => ['[', ']']
  | .array (v :: vs) =>
    '[' :: newline (indent + 1) ++ v.prettyChars (indent + 1) ++ prettyItems indent vs
  | .object [] => ['\x7b', '\x7d']
  | .object (m :: ms) =>
    '\x7b' :: newline (indent + 1) ++ textChars m.1 ++ ':' :: ' ' :: m.2.prettyChars (indent + 1)
      ++ prettyMembers indent ms

def prettyItems (indent : Nat) : List Value → List Char
  | [] => newline indent ++ [']']
  | v :: vs => ',' :: newline (indent + 1) ++ v.prettyChars (indent + 1) ++ prettyItems indent vs

def prettyMembers (indent : Nat) : List (String × Value) → List Char
  | [] => newline indent ++ ['\x7d']
  | m :: ms =>
    ',' :: newline (indent + 1) ++ textChars m.1 ++ ':' :: ' ' :: m.2.prettyChars (indent + 1)
      ++ prettyMembers indent ms

end

def Value.compact (v : Value) : String := String.ofList v.compactChars
def Value.pretty (v : Value) : String := String.ofList (v.prettyChars 0)

end ForcingData.Json
