import ForcingData.Json.Basic
import ForcingData.Toml.Moment

/-! # TOML

`Toml.parse?` reads a text into a table. Dates and times are kept as texts. A key must not be given
twice, a table must not be opened twice, and nothing is added to a table or an array that was given
as a value. -/

namespace ForcingData.Toml
open Json

abbrev Members := List (String × Value)

/-! ### Blanks -/

def isBlank (c : Char) : Bool := c == ' ' || c == '\t'

def skipBlanks (cs : List Char) : List Char := cs.dropWhile isBlank

/-- What follows the line, if nothing but a comment is left on it. -/
def endOfLine? (cs : List Char) : Option (List Char) :=
  match skipBlanks cs with
  | [] => some []
  | '\n' :: rest => some rest
  | '#' :: rest => some ((rest.dropWhile (· != '\n')).drop 1)
  | _ => none

/-- Skips blanks, comments and line breaks. -/
def skipSpace : Nat → List Char → List Char
  | 0, cs => cs
  | fuel + 1, cs =>
    match skipBlanks cs with
    | [] => []
    | c :: rest =>
      match endOfLine? (c :: rest) with
      | some more => skipSpace fuel more
      | none => c :: rest

/-! ### Texts -/

def escape? : Char → Option Char
  | 'b' => some '\x08'
  | 't' => some '\t'
  | 'n' => some '\n'
  | 'f' => some '\x0c'
  | 'r' => some '\r'
  | '"' => some '"'
  | '\\' => some '\\'
  | _ => none

def charOf? (digits : List Char) : Option Char := do
  let n ← Decimal.natOfDigits? 16 digits
  if n < 0xd800 || (0xdfff < n && n < 0x110000) then some (Char.ofNat n) else none

/-- Control characters do not stand in a text, tabs apart; line breaks do if it has many lines. -/
def allowed (multiline : Bool) (c : Char) : Bool :=
  c == '\t' || (multiline && c == '\n') || (0x20 ≤ c.toNat && c.toNat != 0x7f)

/-- The rest of a text in double quotes on one line, or in three on several. -/
def basicText (multiline : Bool) : Nat → List Char → Option (List Char × List Char)
  | 0, _ => none
  | fuel + 1, cs =>
    let add (c : Char) (rest : List Char) : Option (List Char × List Char) :=
      (basicText multiline fuel rest).map fun (text, stop) => (c :: text, stop)
    match cs with
    | [] => none
    | '"' :: '"' :: '"' :: rest =>
      if !multiline then some ([], '"' :: '"' :: rest)
      else
        match rest with
        | '"' :: '"' :: rest => some (['"', '"'], rest)
        | '"' :: rest => some (['"'], rest)
        | rest => some ([], rest)
    | '"' :: rest => if multiline then add '"' rest else some ([], rest)
    | '\\' :: 'u' :: rest => do add (← charOf? (rest.take 4)) (rest.drop 4)
    | '\\' :: 'U' :: rest => do add (← charOf? (rest.take 8)) (rest.drop 8)
    | '\\' :: c :: rest =>
      if multiline && (isBlank c || c == '\n') then
        if (endOfLine? (c :: rest)).isNone then none
        else basicText multiline fuel ((c :: rest).dropWhile fun d => isBlank d || d == '\n')
      else do add (← escape? c) rest
    | c :: rest => if allowed multiline c then add c rest else none

/-- The rest of a text in single quotes on one line, or in three on several; nothing is escaped. -/
def literalText (multiline : Bool) : List Char → Option (List Char × List Char)
  | '\x27' :: '\x27' :: '\x27' :: '\x27' :: '\x27' :: rest =>
    if multiline then some (['\x27', '\x27'], rest)
    else some ([], '\x27' :: '\x27' :: '\x27' :: '\x27' :: rest)
  | '\x27' :: '\x27' :: '\x27' :: '\x27' :: rest =>
    if multiline then some (['\x27'], rest) else some ([], '\x27' :: '\x27' :: '\x27' :: rest)
  | '\x27' :: '\x27' :: '\x27' :: rest =>
    if multiline then some ([], rest) else some ([], '\x27' :: '\x27' :: rest)
  | '\x27' :: rest =>
    if multiline then (literalText multiline rest).map fun (text, stop) => ('\x27' :: text, stop)
    else some ([], rest)
  | c :: rest =>
    if allowed multiline c then
      (literalText multiline rest).map fun (text, stop) => (c :: text, stop)
    else none
  | [] => none

/-- A line break right after the opening quotes does not count. -/
def dropFirstBreak : List Char → List Char
  | '\n' :: rest => rest
  | cs => cs

def text? (fuel : Nat) (cs : List Char) : Option (String × List Char) :=
  let found := match cs with
    | '"' :: '"' :: '"' :: rest => basicText true fuel (dropFirstBreak rest)
    | '"' :: rest => basicText false fuel rest
    | '\x27' :: '\x27' :: '\x27' :: rest => literalText true (dropFirstBreak rest)
    | '\x27' :: rest => literalText false rest
    | _ => none
  found.map fun (text, rest) => (String.ofList text, rest)

/-! ### Keys -/

def isKeyChar (c : Char) : Bool := c.isAlphanum || c == '_' || c == '-'

def simpleKey? (fuel : Nat) (cs : List Char) : Option (String × List Char) :=
  match cs with
  | '"' :: rest => (basicText false fuel rest).map fun (t, rest) => (String.ofList t, rest)
  | '\x27' :: rest => (literalText false rest).map fun (t, rest) => (String.ofList t, rest)
  | _ =>
    match cs.takeWhile isKeyChar with
    | [] => none
    | key => some (String.ofList key, cs.dropWhile isKeyChar)

/-- A key, or several with points between them; blanks after it are skipped. -/
def key? : Nat → List Char → Option (List String × List Char)
  | 0, _ => none
  | fuel + 1, cs => do
    let (key, rest) ← simpleKey? fuel (skipBlanks cs)
    match skipBlanks rest with
    | '.' :: rest =>
      let (keys, rest) ← key? fuel rest
      return (key :: keys, rest)
    | rest => return ([key], rest)

/-! ### Scalars -/

/-- Digits with single underscores between them. -/
def withoutUnderscores? (isDigit : Char → Bool) : List Char → Option (List Char)
  | [] => none
  | [c] => if isDigit c then some [c] else none
  | c :: '_' :: rest =>
    if isDigit c then (withoutUnderscores? isDigit rest).map (c :: ·) else none
  | c :: rest => if isDigit c then (withoutUnderscores? isDigit rest).map (c :: ·) else none

def hasLeadingZero : List Char → Bool
  | '0' :: _ :: _ => true
  | _ => false

def intValue? (n : Int) : Option Value :=
  if Word.fitsSigned 64 n then some (.number (.int n)) else none

def baseDigits? (base : Nat) (digits : List Char) : Option Value := do
  let digits ← withoutUnderscores? (fun c => (hexDigit? c).any (· < base)) digits
  intValue? (← Decimal.natOfDigits? base digits)

def isNumberPart (c : Char) : Bool := c.isDigit || c == '_'

/-- Digits with single underscores between them, up to what is neither. -/
def digitRun? (cs : List Char) : Option (List Char × List Char) :=
  (withoutUnderscores? Char.isDigit (cs.takeWhile isNumberPart)).map fun digits =>
    (digits, cs.dropWhile isNumberPart)

/-- A point and digits, if there is a point. -/
def fractionRun? : List Char → Option (List Char × List Char)
  | '.' :: cs => (digitRun? cs).map fun (digits, rest) => ('.' :: digits, rest)
  | cs => some ([], cs)

/-- The power of ten at the end, if there is one. -/
def exponentRun? : List Char → Option (List Char)
  | [] => some []
  | e :: cs =>
    if e = 'e' || e = 'E' then
      let (negative, cs) := Decimal.dropSign cs
      match digitRun? cs with
      | some (digits, []) => some (e :: if negative then '-' :: digits else digits)
      | _ => none
    else none

def decimal? (word : List Char) : Option Value := do
  let (negative, cs) := Decimal.dropSign word
  let (whole, rest) ← digitRun? cs
  if hasLeadingZero whole then none
  let whole := if negative then '-' :: whole else whole
  if rest = [] then (Decimal.int? whole).bind intValue?
  else
    let (fraction, rest) ← fractionRun? rest
    return .number (.float (← Decimal.float? (whole ++ fraction ++ (← exponentRun? rest))))

def number? (word : List Char) : Option Value :=
  match word with
  | '0' :: 'x' :: digits => baseDigits? 16 digits
  | '0' :: 'o' :: digits => baseDigits? 8 digits
  | '0' :: 'b' :: digits => baseDigits? 2 digits
  | _ =>
    match Decimal.dropSign word with
    | (negative, ['i', 'n', 'f']) =>
      some (.number (.float (if negative then -1.0 / 0.0 else 1.0 / 0.0)))
    | (_, ['n', 'a', 'n']) => some (.number (.float (0.0 / 0.0)))
    | _ => decimal? word

/-- Does the word begin like a date or a time? -/
def startsMoment (word : List Char) : Bool :=
  match word with
  | a :: b :: ':' :: _ => a.isDigit && b.isDigit
  | a :: b :: c :: d :: '-' :: _ => [a, b, c, d].all Char.isDigit
  | _ => false

def isWordChar (c : Char) : Bool := c.isAlphanum || ['_', '-', '+', '.', ':'].contains c

/-- A word and what follows it; a time of day belongs to the date before it. -/
def splitWord (cs : List Char) : List Char × List Char :=
  let word := cs.takeWhile isWordChar
  match cs.dropWhile isWordChar with
  | ' ' :: c :: rest =>
    if isDate word && c.isDigit then
      (word ++ ' ' :: (c :: rest).takeWhile isWordChar, (c :: rest).dropWhile isWordChar)
    else (word, ' ' :: c :: rest)
  | rest => (word, rest)

def word? (cs : List Char) : Option (Value × List Char) :=
  let (word, rest) := splitWord cs
  let value? : Option Value :=
    if word = "true".toList then some (.bool true)
    else if word = "false".toList then some (.bool false)
    else if startsMoment word then (moment? word).map fun text => .text (String.ofList text)
    else number? word
  value?.map fun v => (v, rest)

/-! ### Tables -/

/-- Puts a value under a key of several parts; the tables on the way are made as needed. -/
def put? : List String → Value → Members → Option Members
  | [], _, _ => none
  | [key], v, ms => if (ms.lookup key).isSome then none else some (ms ++ [(key, v)])
  | key :: keys, v, ms =>
    match ms.lookup key with
    | none => (put? keys v []).map fun inner => ms ++ [(key, .object inner)]
    | some (.object inner) => (put? keys v inner).map fun inner => putMember key (.object inner) ms
    | some _ => none

/-- Is one of the paths the given one, or on the way to it? -/
def reaches (paths : List (List String)) (path : List String) : Bool :=
  paths.any (·.isPrefixOf path)

mutual

def value? : Nat → List Char → Option (Value × List Char)
  | 0, _ => none
  | fuel + 1, cs =>
    match cs with
    | '[' :: rest => do
      let (items, rest) ← items? fuel (skipSpace fuel rest)
      return (.array items, rest)
    | '\x7b' :: rest =>
      match skipBlanks rest with
      | '\x7d' :: rest => some (.object [], rest)
      | rest => (inline? fuel [] [] rest).map fun (ms, rest) => (.object ms, rest)
    | '"' :: _ | '\x27' :: _ => (text? fuel cs).map fun (s, rest) => (.text s, rest)
    | _ => word? cs

def items? : Nat → List Char → Option (List Value × List Char)
  | 0, _ => none
  | fuel + 1, cs =>
    match cs with
    | ']' :: rest => some ([], rest)
    | _ => do
      let (item, rest) ← value? fuel cs
      match skipSpace fuel rest with
      | ']' :: rest => return ([item], rest)
      | ',' :: rest =>
        let (items, rest) ← items? fuel (skipSpace fuel rest)
        return (item :: items, rest)
      | _ => none

/-- The rest of a table on one line; `given` are the paths that have a value already. -/
def inline? : Nat → List (List String) → Members → List Char → Option (Members × List Char)
  | 0, _, _, _ => none
  | fuel + 1, given, ms, cs => do
    let (key, rest) ← key? fuel cs
    if reaches given key then none
    match rest with
    | '=' :: rest =>
      let (v, rest) ← value? fuel (skipBlanks rest)
      let ms ← put? key v ms
      match skipBlanks rest with
      | '\x7d' :: rest => return (ms, rest)
      | ',' :: rest => inline? fuel (key :: given) ms rest
      | _ => none
    | _ => none

end

/-- The tables so far, and the path of the one that is being filled. -/
structure State where
  root : Members
  path : List String
  /-- The tables that are not opened again, and that a key with points does not lead through. -/
  opened : List (List String)
  /-- The tables that the keys with points led through since the last header. -/
  dotted : List (List String)
  /-- The paths that have a value. -/
  given : List (List String)

/-- Changes the table at a path; of an array of tables, the last one. -/
def modify? (f : Members → Option Members) : List String → Members → Option Members
  | [], ms => f ms
  | key :: keys, ms =>
    match ms.lookup key with
    | none => (modify? f keys []).map fun inner => ms ++ [(key, .object inner)]
    | some (.object inner) =>
      (modify? f keys inner).map fun inner => putMember key (.object inner) ms
    | some (.array items) =>
      match items.getLast? with
      | some (.object inner) =>
        (modify? f keys inner).map fun inner =>
          putMember key (.array (items.dropLast ++ [.object inner])) ms
      | _ => none
    | some _ => none

/-- Opens a table by its header. -/
def State.openTable? (s : State) (path : List String) : Option State :=
  let opened := s.dotted ++ s.opened
  if opened.contains path || reaches s.given path then none
  else (modify? some path s.root).map fun root => ⟨root, path, path :: opened, [], s.given⟩

/-- Opens another table at the end of an array. -/
def State.openItem? (s : State) (path : List String) : Option State := do
  if reaches s.given path then none
  let last ← path.getLast?
  let add (ms : Members) : Option Members :=
    match ms.lookup last with
    | none => some (ms ++ [(last, .array [.object []])])
    | some (.array items) => some (putMember last (.array (items ++ [.object []])) ms)
    | some _ => none
  let root ← modify? add path.dropLast s.root
  let outside := fun p : List String => !path.isPrefixOf p
  return ⟨root, path, path :: (s.dotted ++ s.opened).filter outside, [], s.given.filter outside⟩

/-- The paths of the tables on the way to `path ++ key`, below `path`. -/
def between (path : List String) : List String → List (List String)
  | [] | [_] => []
  | k :: key => (path ++ [k]) :: between (path ++ [k]) key

/-- Gives a key of the table a value. -/
def State.assign? (s : State) (key : List String) (v : Value) : Option State := do
  let way := between s.path key
  if reaches s.given (s.path ++ key) || way.any s.opened.contains then none
  let root ← modify? (put? key v) s.path s.root
  return { s with root, dotted := way ++ s.dotted, given := (s.path ++ key) :: s.given }

def line? (fuel : Nat) (s : State) (cs : List Char) : Option (State × List Char) :=
  match cs with
  | '[' :: '[' :: rest => do
    match ← key? fuel rest with
    | (path, ']' :: ']' :: rest) => return (← s.openItem? path, rest)
    | _ => none
  | '[' :: rest => do
    match ← key? fuel rest with
    | (path, ']' :: rest) => return (← s.openTable? path, rest)
    | _ => none
  | _ => do
    match ← key? fuel cs with
    | (key, '=' :: rest) =>
      let (v, rest) ← value? fuel (skipBlanks rest)
      return (← s.assign? key v, rest)
    | _ => none

def lines? : Nat → State → List Char → Option Members
  | 0, _, _ => none
  | fuel + 1, s, cs =>
    match skipSpace fuel cs with
    | [] => some s.root
    | cs => do
      let (s, rest) ← line? fuel s cs
      lines? fuel s (← endOfLine? rest)

/-- Line breaks of both kinds are line feeds. -/
def lineFeeds : List Char → List Char
  | '\r' :: '\n' :: rest => '\n' :: lineFeeds rest
  | c :: rest => c :: lineFeeds rest
  | [] => []

def parse? (s : String) : Option Members :=
  let cs := lineFeeds s.toList
  lines? (cs.length + 2) ⟨[], [], [], [], []⟩ cs

end ForcingData.Toml
