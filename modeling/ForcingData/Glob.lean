import ForcingData.Text.Notation

/-! # Globs

In a glob, `*` is any text without a slash, `?` one character that is no slash, `**` any text, and
`**` with a slash after it nothing or any text that ends in a slash; every other character is
itself. The texts that `**` stands for hold no line feed. `Glob.accepts` decides whether a text is
in the language, `Glob.expression` writes the glob as a regular expression. -/

namespace ForcingData.Glob

inductive Token
  /-- Nothing, or directories with a slash after each. -/
  | directories
  /-- Any text. -/
  | anything
  /-- Any text without a slash. -/
  | name
  /-- One character that is no slash. -/
  | one
  | literal (c : Char)
deriving DecidableEq, Repr

def tokens : List Char → List Token
  | '*' :: '*' :: '/' :: rest => .directories :: tokens rest
  | '*' :: '*' :: rest => .anything :: tokens rest
  | '*' :: rest => .name :: tokens rest
  | '?' :: rest => .one :: tokens rest
  | c :: rest => .literal c :: tokens rest
  | [] => []

/-- Does `next` hold after some characters that satisfy `p`? -/
def afterAny (p : Char → Bool) (next : List Char → Bool) : List Char → Bool
  | [] => next []
  | c :: cs => next (c :: cs) || (p c && afterAny p next cs)

/-- Does `next` hold after some slash, all before being free of line feeds? -/
def afterSlash (next : List Char → Bool) : List Char → Bool
  | [] => false
  | c :: cs => c != '\n' && ((c == '/' && next cs) || afterSlash next cs)

def acceptsTokens : List Token → List Char → Bool
  | [], cs => cs.isEmpty
  | .directories :: ts, cs => acceptsTokens ts cs || afterSlash (acceptsTokens ts) cs
  | .anything :: ts, cs => afterAny (· != '\n') (acceptsTokens ts) cs
  | .name :: ts, cs => afterAny (· != '/') (acceptsTokens ts) cs
  | .one :: ts, c :: cs => c != '/' && acceptsTokens ts cs
  | .literal x :: ts, c :: cs => c == x && acceptsTokens ts cs
  | .one :: _, [] => false
  | .literal _ :: _, [] => false

/-- Is all of the text in the language of the glob? -/
def accepts (glob text : String) : Bool :=
  acceptsTokens (tokens glob.toList) text.toList

def Token.chars : Token → List Char
  | .directories => "(?:.*/)?".toList
  | .anything => ".*".toList
  | .name => "[^/]*".toList
  | .one => "[^/]".toList
  | .literal c => Text.escapeMeta [c]

/-- The glob as an anchored regular expression. -/
def expression (glob : String) : String :=
  "^" ++ String.ofList ((tokens glob.toList).flatMap Token.chars) ++ "$"

end ForcingData.Glob
