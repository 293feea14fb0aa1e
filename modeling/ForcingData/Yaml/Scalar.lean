import ForcingData.Json.Parser
import ForcingData.Yaml.Cursor

/-! # Scalars on the line

Scalars that are plain or in quotes, on one line or on several, whose line breaks are folded: a
single one is a space, and of more each but the first counts. -/

namespace ForcingData.Yaml

structure Scalar where
  text : String
  /-- Not in quotes, so that it may stand for something else than a text. -/
  plain : Bool
deriving DecidableEq, Repr, Inhabited

def isFlowIndicator (c : Char) : Bool := [',', '[', ']', '\x7b', '\x7d'].contains c

def isIndicator (c : Char) : Bool :=
  isFlowIndicator c || ['#', '&', '*', '!', '|', '>', '\x27', '"', '%', '@', '\x60'].contains c

/-- Can a plain scalar start here? -/
def startsPlain (flow : Bool) : List Char → Bool
  | [] => false
  | c :: rest =>
    if c == '-' then !endsWord rest
    else if c == ':' || c == '?' then !flow && !endsWord rest
    else !isIndicator c && !isBlank c && c != '\n'

/-- The characters of a plain scalar on one line, with blanks at their end; a colon before a blank
and a comment end it, and inside brackets their signs. -/
def plainChars (flow afterBlank : Bool) : List Char → List Char
  | [] => []
  | c :: rest =>
    if c == '\n' || (c == ':' && endsWord rest) || (c == '#' && afterBlank) then []
    else if flow && isFlowIndicator c then []
    else c :: plainChars flow (isBlank c) rest

/-- The line breaks between two pieces of a scalar: a single one is a space. -/
def folded (breaks : Nat) : List Char :=
  if breaks = 1 then [' '] else List.replicate (breaks - 1) '\n'

def dropBlanksAtEnd (cs : List Char) : List Char :=
  (cs.reverse.dropWhile isBlank).reverse

/-- The line breaks up to the next content, and where that is. -/
def skipBreaks : Nat → Nat → Cursor → Nat × Cursor
  | 0, n, c => (n, c)
  | fuel + 1, n, c =>
    let after := skipBlanks c
    match after.rest with
    | '\n' :: rest => skipBreaks fuel (n + 1) ⟨0, rest⟩
    | _ => (n, after)

/-- A plain scalar; further lines have to be indented by more than `indent`. -/
def plainLines (flow : Bool) (indent : Int) : Nat → Cursor → List Char × Cursor
  | 0, c => ([], c)
  | fuel + 1, c =>
    let line := plainChars flow true c.rest
    let text := dropBlanksAtEnd line
    let after := c.advance text.length
    match skipBreaks fuel 0 after with
    | (0, _) => (text, after)
    | (n + 1, next) =>
      let starts := !(plainChars flow true next.rest).isEmpty
      if starts && (flow || indent < next.column) && !atMarker next then
        let (more, stop) := plainLines flow indent fuel next
        (text ++ folded (n + 1) ++ more, stop)
      else (text, after)

def escape? : Char → Option Char
  | '0' => some '\x00'
  | 'a' => some '\x07'
  | 'b' => some '\x08'
  | 't' | '\t' => some '\t'
  | 'n' => some '\n'
  | 'v' => some '\x0b'
  | 'f' => some '\x0c'
  | 'r' => some '\r'
  | 'e' => some '\x1b'
  | ' ' => some ' '
  | '"' => some '"'
  | '/' => some '/'
  | '\\' => some '\\'
  | 'N' => some '\u0085'
  | '_' => some '\u00a0'
  | 'L' => some '\u2028'
  | 'P' => some '\u2029'
  | _ => none

def hexEscape : Char → Nat
  | 'x' => 2
  | 'u' => 4
  | 'U' => 8
  | _ => 0

/-- The character with this number. -/
def charOf? (digits : List Char) : Option Char := do
  let n ← digits.foldlM (fun n c => (Json.hexDigit? c).map (n * 16 + ·)) 0
  if n < 0xd800 || (0xdfff < n && n < 0x110000) then some (Char.ofNat n) else none

/-- A scalar after its opening quote. In double quotes a backslash escapes, in single quotes a
second quote does; line breaks are folded. -/
def quotedLines (quote : Char) : Nat → Cursor → Option (List Char × Cursor)
  | 0, _ => none
  | fuel + 1, c =>
    match c.rest with
    | [] => none
    | d :: rest =>
      if d = quote then
        if quote = '\x27' && rest.head? = some '\x27' then do
          let (more, stop) ← quotedLines quote fuel (c.advance 2)
          return ('\x27' :: more, stop)
        else some ([], c.advance 1)
      else if d = '\\' && quote = '"' then
        match rest with
        | '\n' :: rest => quotedLines quote fuel (skipBlanks ⟨0, rest⟩)
        | e :: more =>
          let n := hexEscape e
          if n = 0 then do
            let x ← escape? e
            let (more, stop) ← quotedLines quote fuel (c.advance 2)
            return (x :: more, stop)
          else do
            if more.length < n then none
            let x ← charOf? (more.take n)
            let (more, stop) ← quotedLines quote fuel (c.advance (n + 2))
            return (x :: more, stop)
        | [] => none
      else if isBlank d || d = '\n' then
        match skipBreaks fuel 0 c with
        | (0, _) => do
          let (more, stop) ← quotedLines quote fuel (c.advance 1)
          return (d :: more, stop)
        | (n + 1, next) =>
          if atMarker next then none
          else do
            let (more, stop) ← quotedLines quote fuel next
            return (folded (n + 1) ++ more, stop)
      else do
        let (more, stop) ← quotedLines quote fuel (c.advance 1)
        return (d :: more, stop)

def isQuote (c : Char) : Bool := c == '"' || c == '\x27'

/-- A scalar of any kind. -/
def scalar? (flow : Bool) (indent : Int) (fuel : Nat) (c : Cursor) : Option (Scalar × Cursor) :=
  match c.rest with
  | [] => none
  | d :: _ =>
    if isQuote d then do
      let (text, stop) ← quotedLines d fuel (c.advance 1)
      return (⟨String.ofList text, false⟩, stop)
    else if startsPlain flow c.rest then
      let (text, stop) := plainLines flow indent fuel c
      some (⟨String.ofList text, true⟩, stop)
    else none

end ForcingData.Yaml
