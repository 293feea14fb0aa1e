import ForcingData.Text.Printable

/-! # Quoted texts

How messages show values: in double quotes, with `"`, `\`, line breaks, tabs and NUL escaped, and
every other character that would not show by itself as `\u` and its number in hexadecimal. -/

namespace ForcingData.Text

/-- The hexadecimal digits of a number, lower case, without leading zeros. -/
def hexDigits (n : Nat) : List Char :=
  Nat.toDigits 16 n

/-- How one character stands inside the quotes. -/
def quoteChar (c : Char) : List Char :=
  if c = '"' then ['\\', '"']
  else if c = '\\' then ['\\', '\\']
  else if c = '\n' then ['\\', 'n']
  else if c = '\r' then ['\\', 'r']
  else if c = '\t' then ['\\', 't']
  else if c.toNat = 0 then ['\\', '0']
  else if extendsGrapheme c || !isPrintable c then
    ['\\', 'u', '\x7b'] ++ hexDigits c.toNat ++ ['\x7d']
  else [c]

def quoteChars (cs : List Char) : List Char :=
  '"' :: cs.flatMap quoteChar ++ ['"']

def quoted (s : String) : String :=
  String.ofList (quoteChars s.toList)

/-- A list of values, such as `["a", "b"]`. -/
def quotedList (xs : List String) : String :=
  "[" ++ ", ".intercalate (xs.map quoted) ++ "]"

/-- A set of values, such as `\x7b"a", "b"\x7d`. -/
def quotedSet (xs : List String) : String :=
  "\x7b" ++ ", ".intercalate (xs.map quoted) ++ "\x7d"

/-- A value that may be absent: `Some("a")` or `None`. -/
def quotedOption : Option String → String
  | some s => "Some(" ++ quoted s ++ ")"
  | none => "None"

end ForcingData.Text
