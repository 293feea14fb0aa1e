/-! # Moving through YAML

A cursor is the rest of a text and the column it starts at. Comments, blank lines and the lines that
start and end a document are told apart from content. -/

namespace ForcingData.Yaml

/-- The rest of a text, and how many characters stand before it on its line. -/
structure Cursor where
  column : Nat
  rest : List Char

namespace Cursor

def advance (c : Cursor) (n : Nat) : Cursor := ⟨c.column + n, c.rest.drop n⟩

/-- The start of the next line. -/
def nextLine (c : Cursor) : Cursor := ⟨0, (c.rest.dropWhile (· != '\n')).drop 1⟩

end Cursor

def isBlank (c : Char) : Bool := c == ' ' || c == '\t'

/-- Nothing more on the line, or a blank. -/
def endsWord (rest : List Char) : Bool :=
  match rest with
  | [] => true
  | c :: _ => isBlank c || c == '\n'

/-- Is this the line that starts or ends a document? -/
def atMarker (c : Cursor) : Bool :=
  c.column == 0 && (c.rest.take 3 == ['-', '-', '-'] || c.rest.take 3 == ['.', '.', '.'])
    && endsWord (c.rest.drop 3)

def atEnd (c : Cursor) : Bool := c.rest.isEmpty || atMarker c

/-- Skips blanks and a comment on the same line. -/
def skipBlanks (c : Cursor) : Cursor :=
  c.advance (c.rest.takeWhile isBlank).length

/-- Nothing but a comment on the rest of the line; a comment has a blank before it. -/
def lineIsDone (c : Cursor) : Bool :=
  let after := skipBlanks c
  match after.rest with
  | [] => true
  | '\n' :: _ => true
  | '#' :: _ => c.column < after.column || c.column == 0
  | _ => false

/-- Skips whole lines without content; `none` if there is anything else on this line. The
indentation of the next content must be of spaces alone. -/
def skipLines : Nat → Cursor → Option Cursor
  | 0, _ => none
  | fuel + 1, c =>
    if c.rest = [] || atMarker c then some c
    else if lineIsDone c then skipLines fuel c.nextLine
    else if c.column = 0 then
      let after := c.advance (c.rest.takeWhile (· == ' ')).length
      if after.rest.head? = some '\t' then none else some after
    else none

/-- Skips blanks, line breaks and comments inside brackets. -/
def skipFlow : Nat → Cursor → Cursor
  | 0, c => c
  | fuel + 1, c =>
    if lineIsDone c && c.rest ≠ [] then skipFlow fuel c.nextLine else skipBlanks c

end ForcingData.Yaml
