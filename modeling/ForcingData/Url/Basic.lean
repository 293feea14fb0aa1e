import ForcingData.Url.Host

/-! # URLs

`Url.parse?` reads an absolute URL and brings it into its normal form, which `Url.text` writes. The
special schemes (`http`, `https`, `ftp`, `ws`, `wss`, `file`) have a host and a path of segments, in
which `.` and `..` are carried out; other schemes may have a path that is plain text. -/

namespace ForcingData

inductive Url.Route
  | opaqueText (text : String)
  | segments (names : List String)
deriving DecidableEq, Repr

structure Url.Authority where
  /-- User name and password with the sign after them, escaped. -/
  userInfo : String
  host : Option Url.Host
  port : Option Nat
deriving DecidableEq, Repr

structure Url where
  scheme : String
  authority : Option Url.Authority
  route : Url.Route
  query : Option String
  fragment : Option String
deriving DecidableEq, Repr

namespace Url

/-! ### Schemes -/

inductive SchemeKind
  | file
  | special
  | other
deriving DecidableEq, Repr

def schemeKind (scheme : String) : SchemeKind :=
  if scheme = "file" then .file
  else if ["http", "https", "ftp", "ws", "wss"].contains scheme then .special
  else .other

def defaultPort? (scheme : String) : Option Nat :=
  [("http", 80), ("https", 443), ("ws", 80), ("wss", 443), ("ftp", 21)].lookup scheme

def isSchemeChar (c : Char) : Bool := c.isAlphanum || c == '+' || c == '-' || c == '.'

/-- A letter, more scheme characters, and a colon: the scheme in lower case, and what follows. -/
def splitScheme? (cs : List Char) : Option (String × List Char) :=
  match cs.dropWhile isSchemeChar with
  | ':' :: rest =>
    if cs.head?.any Char.isAlpha then
      some (String.ofList ((cs.takeWhile isSchemeChar).map Char.toLower), rest)
    else none
  | _ => none

/-- Does the character end the part before the path? -/
def endsAuthority (special : Bool) (c : Char) : Bool :=
  c == '/' || c == '?' || c == '#' || (special && c == '\\')

def isSlash (special : Bool) (c : Char) : Bool := c == '/' || (special && c == '\\')

/-! ### User, host and port -/

/-- The two sides of the last `@`. -/
def splitAtLastSign (cs : List Char) : Option (List Char × List Char) :=
  if cs.contains '@' then
    let after := (cs.reverse.takeWhile (· != '@')).reverse
    some (cs.take (cs.length - after.length - 1), after)
  else none

/-- User name and password, escaped, and the sign after them unless there is neither. -/
def userInfoText (cs : List Char) : String :=
  let user := percentEncode escapedInUserInfo (cs.takeWhile (· != ':'))
  let password := percentEncode escapedInUserInfo ((cs.dropWhile (· != ':')).drop 1)
  if user = [] && password = [] then ""
  else if password = [] then String.ofList (user ++ ['@'])
  else String.ofList (user ++ ':' :: password ++ ['@'])

/-- The host up to the colon before the port; inside of brackets colons belong to the host. -/
def splitHost (inside : Bool) : List Char → List Char × List Char
  | [] => ([], [])
  | c :: rest =>
    if c = ':' && !inside then ([], c :: rest)
    else
      let inside := if c = '[' then true else if c = ']' then false else inside
      let (host, more) := splitHost inside rest
      (c :: host, more)

def port? (scheme : String) (cs : List Char) : Except ParseError (Option Nat) :=
  let digits := cs.takeWhile fun c => '0' ≤ c && c ≤ '9'
  let value := digits.foldl (fun n c => n * 10 + (c.toNat - '0'.toNat)) 0
  let after := cs.drop digits.length
  if 65535 < value then .error .invalidPort
  else if after ≠ [] && after.head? ≠ some '\\' then .error .invalidPort
  else if digits = [] || defaultPort? scheme = some value then .ok none
  else .ok (some value)

/-- User name and password, and what follows the sign after them; `more` says whether anything
follows that. -/
def splitUserInfo? (cs : List Char) (more : Bool) : Except ParseError (String × List Char) :=
  match splitAtLastSign cs with
  | none => .ok ("", cs)
  | some (before, after) =>
    if before = [] && after = [] then if more then .error .emptyHost else .ok ("", [])
    else .ok (userInfoText before, after)

def host? (special : Bool) (cs : List Char) : Except ParseError Host :=
  if special then if cs = [] then .error .emptyHost else Host.parse? cs
  else Host.parseOpaque? cs

/-- The port after a colon. -/
def portAfterHost? (scheme : String) : List Char → Except ParseError (Option Nat)
  | ':' :: digits => port? scheme digits
  | _ => .ok none

/-- What stands between the slashes and the path; `more` says whether anything follows. -/
def authority? (scheme : String) (cs : List Char) (more : Bool) : Except ParseError Authority := do
  let (user, hostPort) ← splitUserInfo? cs more
  let (hostChars, rest) := splitHost false hostPort
  let host ← host? (schemeKind scheme ≠ .other) hostChars
  if host = .domain "" then
    if rest ≠ [] || user ≠ "" then .error .emptyHost else .ok ⟨user, none, none⟩
  else
    let port ← portAfterHost? scheme rest
    return ⟨user, some host, port⟩

/-! ### Paths -/

def isDriveLetter (cs : List Char) : Bool :=
  match cs with
  | [a, b] => a.isAlpha && (b == ':' || b == '|')
  | _ => false

def isSingleDot (cs : List Char) : Bool :=
  let s := String.ofList (cs.map Char.toLower)
  s == "." || s == "%2e"

def isDoubleDot (cs : List Char) : Bool :=
  let s := String.ofList (cs.map Char.toLower)
  s == ".." || s == "%2e." || s == ".%2e" || s == "%2e%2e"

/-- Goes one directory up; a drive letter alone stays. -/
def shorten (file : Bool) (path : List (List Char)) : List (List Char) :=
  match path with
  | [name] => if file && isDriveLetter name && name.getLast? = some ':' then path else []
  | _ => path.dropLast

/-- Carries one segment out; after the last one the path ends in a slash or in its name. -/
def addSegment (file : Bool) (path : List (List Char)) (segment : List Char) (last : Bool) :
    List (List Char) :=
  if isDoubleDot segment then
    let path := shorten file path
    if last then path ++ [[]] else path
  else if isSingleDot segment then
    if last then path ++ [[]] else path
  else if file && path = [] && isDriveLetter segment then
    path ++ [segment.take 1 ++ [':']]
  else path ++ [segment]

def addSegments (file : Bool) : List (List Char) → List (List Char) → List (List Char)
  | path, [] => path
  | path, [segment] => addSegment file path segment true
  | path, segment :: rest => addSegments file (addSegment file path segment false) rest

def splitSlashes (special : Bool) : List Char → List (List Char)
  | [] => [[]]
  | c :: rest =>
    if isSlash special c then [] :: splitSlashes special rest
    else
      match splitSlashes special rest with
      | [] => [[c]]
      | piece :: pieces => (c :: piece) :: pieces

/-- Characters right after a drive letter are a segment of their own. -/
def splitDrive : List (List Char) → List (List Char)
  | (a :: ':' :: c :: cs) :: rest =>
    if a.isAlpha then [a, ':'] :: (c :: cs) :: rest else (a :: ':' :: c :: cs) :: rest
  | segments => segments

/-- The segments of a path given without the slash before it. -/
def segmentsOf (kind : SchemeKind) (cs : List Char) : List String :=
  let pieces := (splitSlashes (kind ≠ .other) cs).map (percentEncode escapedInPath)
  let path := match kind with
    | .file =>
      let path := addSegments true [] (splitDrive pieces)
      match path.dropWhile (· = []) with
      | [] => [[]]
      | path => path
    | _ => addSegments false [] pieces
  path.map String.ofList

/-! ### The whole -/

/-- Path, query and fragment. -/
def splitTail (cs : List Char) : List Char × Option (List Char) × Option (List Char) :=
  let main := cs.takeWhile (· != '#')
  let fragment := (cs.dropWhile (· != '#')).tail?
  let path := main.takeWhile (· != '?')
  let query := (main.dropWhile (· != '?')).tail?
  (path, query, fragment)

def assemble (scheme : String) (authority : Option Authority) (route : Route)
    (query fragment : Option (List Char)) : Url :=
  let special := schemeKind scheme ≠ .other
  ⟨scheme, authority, route,
    query.map fun cs => String.ofList (percentEncode (escapedInQuery special) cs),
    fragment.map fun cs => String.ofList (percentEncode escapedInFragment cs)⟩

/-- The path after an authority. -/
def routeAfter (kind : SchemeKind) : List Char → Route
  | [] => .segments (if kind ≠ .other then [""] else [])
  | c :: rest => .segments (segmentsOf kind (if isSlash (kind ≠ .other) c then rest else c :: rest))

/-- What follows the slashes of an authority. -/
def afterSlashes (scheme : String) (cs : List Char) : Except ParseError Url := do
  let kind := schemeKind scheme
  let special := kind ≠ .other
  let before := cs.takeWhile (!endsAuthority special ·)
  let tail := cs.drop before.length
  let (path, query, fragment) := splitTail tail
  let authority ← authority? scheme before (tail ≠ [])
  return assemble scheme (some authority) (routeAfter kind path) query fragment

/-- What follows the host of a `file` URL. -/
def afterFileHost (host : Option Host) (cs : List Char) : Url :=
  let (path, query, fragment) := splitTail cs
  let path := if path.head?.any (isSlash true) then path.drop 1 else path
  assemble "file" (some ⟨"", host, none⟩) (.segments (segmentsOf .file path)) query fragment

/-- What follows `file:`; a drive letter in the place of a host belongs to the path. -/
def ofFile (cs : List Char) : Except ParseError Url :=
  match cs with
  | a :: b :: rest =>
    if isSlash true a && isSlash true b then
      let hostChars := rest.takeWhile (!endsAuthority true ·)
      if hostChars = [] || isDriveLetter hostChars then .ok (afterFileHost none rest)
      else do
        let host ← Host.parse? hostChars
        let remote := if host = .domain "localhost" then none else some host
        return afterFileHost remote (rest.drop hostChars.length)
    else .ok (afterFileHost none cs)
  | _ => .ok (afterFileHost none cs)

def ofOther (scheme : String) (cs : List Char) : Except ParseError Url :=
  match cs with
  | '/' :: '/' :: rest => afterSlashes scheme rest
  | _ =>
    let (path, query, fragment) := splitTail cs
    match path with
    | '/' :: rest => .ok (assemble scheme none (.segments (segmentsOf .other rest)) query fragment)
    | _ =>
      .ok (assemble scheme none (.opaqueText (String.ofList (percentEncode escapedControl path)))
        query fragment)

/-- Line breaks and tabs say nothing, and neither do controls and blanks around the URL. -/
def significant (cs : List Char) : List Char :=
  let isEdge (c : Char) : Bool := c.toNat ≤ 0x20
  let trimmed := ((cs.dropWhile isEdge).reverse.dropWhile isEdge).reverse
  trimmed.filter fun c => c ≠ '\t' && c ≠ '\n' && c ≠ '\r'

def parse? (s : String) : Except ParseError Url :=
  match splitScheme? (significant s.toList) with
  | none => .error .relativeWithoutBase
  | some (scheme, rest) =>
    match schemeKind scheme with
    | .file => ofFile rest
    | .special => afterSlashes scheme (rest.dropWhile (isSlash true))
    | .other => ofOther scheme rest

/-! ### Writing -/

def Authority.text (a : Authority) : String :=
  a.userInfo ++ (a.host.map Host.text).getD "" ++
    match a.port with
    | some n => ":" ++ toString n
    | none => ""

def Route.text : Route → String
  | .opaqueText text => text
  | .segments names => String.join (names.map ("/" ++ ·))

def text (u : Url) : String :=
  let front := match u.authority with
    | some a => "//" ++ a.text
    | none => if u.route.text.startsWith "//" then "/." else ""
  let query := match u.query with
    | some q => "?" ++ q
    | none => ""
  let fragment := match u.fragment with
    | some f => "#" ++ f
    | none => ""
  u.scheme ++ ":" ++ front ++ u.route.text ++ query ++ fragment

/-- The URL with a slash at the end of its path. -/
def asDirectory (u : Url) : Url :=
  match u.route with
  | .segments names =>
    if names.getLast? = some "" then u else { u with route := .segments (names ++ [""]) }
  | .opaqueText _ => u

/-- The local path that a `file` URL without a host names; a drive letter keeps a slash after it. -/
def filePath? (u : Url) : Option String := do
  match u.authority, u.route with
  | some ⟨_, none, _⟩, .segments names =>
    let bytes := names.flatMap fun name => '/'.toUInt8 :: percentDecode name.toList
    let path ← textOfBytes? bytes
    match path.toList.reverse with
    | c :: a :: _ :: _ => return if (c = ':' || c = '|') && a.isAlpha then path ++ "/" else path
    | _ => return path
  | _, _ => none

end Url
end ForcingData
