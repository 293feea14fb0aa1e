import ForcingData.Text.Lowercase
import ForcingData.Url.Percent
import ForcingData.Url.Punycode

/-! # Hosts

A host is a domain name, or an address of one of two kinds. Domain names of any script are brought
into lower case and written in ASCII. A name whose last label is a number is an address. -/

namespace ForcingData.Url

inductive ParseError
  | emptyHost
  | invalidDomain
  | invalidPort
  | invalidIpv4
  | invalidIpv6
  | invalidDomainCharacter
  | relativeWithoutBase
deriving DecidableEq, Repr

def ParseError.message : ParseError → String
  | .emptyHost => "empty host"
  | .invalidDomain => "invalid international domain name"
  | .invalidPort => "invalid port number"
  | .invalidIpv4 => "invalid IPv4 address"
  | .invalidIpv6 => "invalid IPv6 address"
  | .invalidDomainCharacter => "invalid domain character"
  | .relativeWithoutBase => "relative URL without a base"

inductive Host
  | domain (name : String)
  | ipv4 (address : Nat)
  | ipv6 (pieces : List Nat)
deriving DecidableEq, Repr

/-! ### Addresses of four bytes -/

def splitOn (sep : Char) : List Char → List (List Char)
  | [] => [[]]
  | c :: rest =>
    if c = sep then [] :: splitOn sep rest
    else
      match splitOn sep rest with
      | [] => [[c]]
      | piece :: pieces => (c :: piece) :: pieces

def digitsValue? (radix : Nat) (cs : List Char) : Option Nat :=
  cs.foldl (fun acc c => do
    let n ← acc
    let d ← hexValue? c
    if d < radix then some (n * radix + d) else none) (some 0)

/-- A number in decimal, after `0` in octal, or after `0x` in hexadecimal notation. -/
def ipv4Number? : List Char → Option Nat
  | [] => none
  | '0' :: x :: rest =>
    if x = 'x' || x = 'X' then digitsValue? 16 rest else digitsValue? 8 (x :: rest)
  | cs => digitsValue? 10 cs

/-- Is the last label of the domain a number? -/
def endsInNumber (domain : List Char) : Bool :=
  let last? := match (splitOn '.' domain).reverse with
    | [] :: last :: _ => some last
    | [] :: [] => none
    | last :: _ => some last
    | [] => none
  match last? with
  | some last => (last ≠ [] && last.all fun c => '0' ≤ c && c ≤ '9') || (ipv4Number? last).isSome
  | none => false

/-- The last number fills all bytes that the ones before leave. -/
def ipv4? (domain : List Char) : Option Nat := do
  let labels := splitOn '.' domain
  let labels := if labels.getLast? = some [] then labels.dropLast else labels
  if 4 < labels.length then none
  let numbers ← labels.mapM ipv4Number?
  let last ← numbers.getLast?
  let first := numbers.dropLast
  if Nat.pow 256 (4 - first.length) ≤ last || first.any (255 < ·) then none
  return (first.zipIdx.foldl (fun acc (n, i) => acc + n * Nat.pow 256 (3 - i)) last)

/-! ### Addresses of eight pieces -/

/-- Four decimal numbers up to 255 without leading zeros, as two pieces. -/
def embeddedIpv4? (cs : List Char) : Option (List Nat) := do
  let numbers ← (splitOn '.' cs).mapM fun label => do
    if label = [] || (label.head? = some '0' && 1 < label.length) then none
    let n ← digitsValue? 10 label
    if 255 < n then none else some n
  match numbers with
  | [a, b, c, d] => return [a * 256 + b, c * 256 + d]
  | _ => none

/-- One to four hexadecimal digits. -/
def ipv6Piece? (cs : List Char) : Option Nat :=
  if cs = [] || 4 < cs.length then none else digitsValue? 16 cs

/-- Pieces between colons; the last ones may be given as four decimal numbers. -/
def ipv6Pieces? : List (List Char) → Option (List Nat)
  | [] => some []
  | [label] => if label.contains '.' then embeddedIpv4? label else (ipv6Piece? label).map ([·])
  | label :: labels => do return (← ipv6Piece? label) :: (← ipv6Pieces? labels)

/-- The two sides of the first `::`. -/
def splitAtGap : List Char → Option (List Char × List Char)
  | ':' :: ':' :: rest => some ([], rest)
  | c :: rest => (splitAtGap rest).map fun (a, b) => (c :: a, b)
  | [] => none

def sidePieces? (cs : List Char) : Option (List Nat) :=
  if cs = [] then some [] else ipv6Pieces? (splitOn ':' cs)

/-- A `::` stands for the zeros that are missing, at least one. -/
def ipv6? (cs : List Char) : Option (List Nat) := do
  match splitAtGap cs with
  | none =>
    let pieces ← sidePieces? cs
    if pieces.length = 8 then some pieces else none
  | some (before, after) =>
    if before.contains '.' then none
    let a ← sidePieces? before
    let b ← sidePieces? after
    if 7 < a.length + b.length then none
    return a ++ List.replicate (8 - a.length - b.length) 0 ++ b

/-- The length of the run of zeros at the front. -/
def zeroRun (pieces : List Nat) : Nat := (pieces.takeWhile (· = 0)).length

/-- The run of zeros at a place if it is longer than the best one before, and of two at least. -/
def longerZeros (pieces : List Nat) (best : Option (Nat × Nat)) (i : Nat) : Option (Nat × Nat) :=
  let n := zeroRun (pieces.drop i)
  match best with
  | some (_, m) => if m < n then some (i, n) else best
  | none => if 2 ≤ n then some (i, n) else none

/-- Start and length of the first longest run of at least two zeros. -/
def longestZeros (pieces : List Nat) : Option (Nat × Nat) :=
  (List.range pieces.length).foldl (longerZeros pieces) none

def piecesText (pieces : List Nat) : String :=
  ":".intercalate (pieces.map fun n => String.ofList (Nat.toDigits 16 n))

def ipv6Text (pieces : List Nat) : String :=
  match longestZeros pieces with
  | some (i, n) => piecesText (pieces.take i) ++ "::" ++ piecesText (pieces.drop (i + n))
  | none => piecesText pieces

def ipv4Text (address : Nat) : String :=
  ".".intercalate ((List.range 4).map fun i => toString (address / Nat.pow 256 (3 - i) % 256))

def Host.text : Host → String
  | .domain name => name
  | .ipv4 address => ipv4Text address
  | .ipv6 pieces => "[" ++ ipv6Text pieces ++ "]"

/-! ### Domain names -/

/-- The characters that no host name holds. -/
def forbiddenInHost (c : Char) : Bool :=
  c.toNat = 0 || "\t\n\r #/:<>?@[\\]^|".toList.contains c

def forbiddenInDomain (c : Char) : Bool :=
  forbiddenInHost c || c.toNat ≤ 0x20 || c = '%' || c.toNat = 0x7f

/-- How a character of a domain name is normalised: lower case, plain forms of wide letters and
dots, and nothing for the characters that do not show. -/
def domainChars (c : Char) : List Char :=
  if c.toNat < 0x80 then [c.toLower]
  else if c = '\u3002' || c = '\uff0e' || c = '\uff61' then ['.']
  else if 0xff01 ≤ c.toNat && c.toNat ≤ 0xff5e then [(Char.ofNat (c.toNat - 0xfee0)).toLower]
  else if c = '\u00ad' || c = '\u200b' || c = '\u2060' || c = '\ufeff' then []
  else Text.lowerChar c

/-- A label that already stands for other characters has to be what those would be written as. -/
def encodedLabel? (label : List Char) : Option (List Char) := do
  let decoded ← Punycode.decode? (label.drop 4)
  if decoded.any (0x80 ≤ ·.toNat) && decoded.flatMap domainChars = decoded
      && decoded.all Text.isPrintable && !decoded.head?.any Text.extendsGrapheme
      && "xn--".toList ++ Punycode.encode decoded = label then
    some label
  else none

def label? (label : List Char) : Option (List Char) :=
  if "xn--".toList.isPrefixOf label && label.all (·.toNat < 0x80) then encodedLabel? label
  else if label.all (·.toNat < 0x80) then some label
  else if label.all Text.isPrintable && !label.head?.any Text.extendsGrapheme then
    some ("xn--".toList ++ Punycode.encode label)
  else none

/-- A domain name in ASCII. -/
def domain? (cs : List Char) : Option (List Char) := do
  let labels ← (splitOn '.' (cs.flatMap domainChars)).mapM label?
  let name := (labels.intersperse ['.']).flatten
  if name.any forbiddenInDomain then none else some name

/-! ### Reading -/

/-- The host of a URL with a special scheme. -/
def Host.parse? (cs : List Char) : Except ParseError Host :=
  match cs with
  | '[' :: rest =>
    if rest.getLast? = some ']' then
      match ipv6? rest.dropLast with
      | some pieces => .ok (.ipv6 pieces)
      | none => .error .invalidIpv6
    else .error .invalidIpv6
  | _ =>
    match (textOfBytes? (percentDecode cs)).bind fun s => domain? s.toList with
    | none => .error .invalidDomain
    | some [] => .error .emptyHost
    | some name =>
      if endsInNumber name then
        match ipv4? name with
        | some address => .ok (.ipv4 address)
        | none => .error .invalidIpv4
      else .ok (.domain (String.ofList name))

/-- The host of any other URL: an address in brackets, or a name that is kept as it is. -/
def Host.parseOpaque? (cs : List Char) : Except ParseError Host :=
  match cs with
  | '[' :: rest =>
    if rest.getLast? = some ']' then
      match ipv6? rest.dropLast with
      | some pieces => .ok (.ipv6 pieces)
      | none => .error .invalidIpv6
    else .error .invalidIpv6
  | _ =>
    if cs.any forbiddenInHost then .error .invalidDomainCharacter
    else .ok (.domain (String.ofList (percentEncode escapedControl cs)))

end ForcingData.Url
