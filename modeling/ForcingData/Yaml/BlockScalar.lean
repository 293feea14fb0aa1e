import ForcingData.Text.Blank
import ForcingData.Yaml.Scalar

/-! # Scalars on lines of their own

After `|` or `>` the text stands on the following lines, indented. `|` keeps the line breaks, `>`
folds those between two lines that do not begin with a blank. The line breaks at the end are left
out after `-`, all kept after `+`, and else at most one of them is kept. -/

namespace ForcingData.Yaml

inductive Chomping
  | strip
  | clip
  | keep
deriving DecidableEq, Repr

structure BlockStyle where
  literal : Bool
  chomping : Chomping
  /-- The indentation, as far as it is given. -/
  indent : Option Nat
deriving DecidableEq, Repr

namespace BlockStyle

/-- Reads what may follow the sign: each of the two at most once. -/
def readChar? (s : BlockStyle) (c : Char) : Option BlockStyle :=
  if (c = '-' || c = '+') && s.chomping = .clip then
    some { s with chomping := if c = '-' then .strip else .keep }
  else if '1' ≤ c && c ≤ '9' && s.indent.isNone then
    some { s with indent := some (c.toNat - '0'.toNat) }
  else none

def ofChars? : List Char → Option BlockStyle
  | '|' :: cs => cs.foldlM readChar? ⟨true, .clip, none⟩
  | '>' :: cs => cs.foldlM readChar? ⟨false, .clip, none⟩
  | _ => none

/-- The text of the line breaks at the end: one that ends a line, and `more`. -/
def tail (s : BlockStyle) (ended : Bool) (more : Nat) : List Char :=
  let last := if ended then ['\n'] else []
  match s.chomping with
  | .strip => []
  | .clip => last
  | .keep => last ++ List.replicate more '\n'

/-- The text between two lines, `more` empty lines being between them. -/
def between (s : BlockStyle) (ended fold : Bool) (more : Nat) : List Char :=
  let first :=
    if !ended then []
    else if !s.literal && fold then (if more = 0 then [' '] else [])
    else ['\n']
  first ++ List.replicate more '\n'

end BlockStyle

/-- The indentation of the first line that is not blank, or of a longer one before it; no tab may
stand there. -/
def blockIndent? : List (List Char) → Option Nat
  | [] => some 0
  | line :: rest =>
    let spaces := (line.takeWhile (· == ' ')).length
    if (line.drop spaces).head? = some '\t' then none
    else if spaces = line.length && !rest.isEmpty then (blockIndent? rest).map (max spaces)
    else some spaces

/-- The text of the lines indented by `indent` spaces, and the lines after them. What stands before
is told by whether a line has ended, whether it began with a blank, and how many empty lines follow
it. -/
def blockLines (s : BlockStyle) (indent : Nat) (ended blank : Bool) (more : Nat) :
    List (List Char) → Option (List Char × List (List Char))
  | [] => some (s.tail ended more, [])
  | line :: rest =>
    let spaces := (line.takeWhile (· == ' ')).length
    if spaces = line.length && spaces ≤ indent && !rest.isEmpty then
      blockLines s indent ended blank (more + 1) rest
    else if indent ≤ spaces && indent < line.length then
      let line := line.drop indent
      let beginsBlank := line.head?.any isBlank
      let joint := s.between ended (!blank && !beginsBlank) more
      (blockLines s indent (!rest.isEmpty) beginsBlank 0 rest).map fun (text, stop) =>
        (joint ++ line ++ text, stop)
    else if spaces < indent && (line.drop spaces).head? = some '\t' then none
    else some (s.tail ended more, line :: rest)

def joinLines : List (List Char) → List Char
  | [] => []
  | [line] => line
  | line :: rest => line ++ '\n' :: joinLines rest

/-- A scalar on the lines after this one, indented by more than `indent`. The cursor is at the start
of a line then. -/
def blockScalar? (indent : Int) (c : Cursor) : Option (Scalar × Cursor) := do
  let sign := c.rest.takeWhile fun d => !isBlank d && d != '\n' && d != '#'
  let style ← BlockStyle.ofChars? sign
  let rest := (c.rest.drop sign.length).dropWhile isBlank
  if !(rest.head?.all fun d => d = '#' || d = '\n') then none
  let lines := Text.splitChars (· == '\n') (Cursor.nextLine ⟨0, rest⟩).rest
  let indent ← match style.indent with
    | some n => some (indent.toNat + n)
    | none => (blockIndent? lines).map fun found => max found (max (indent + 1).toNat 1)
  let (text, stop) ← blockLines style indent false false 0 lines
  return (⟨String.ofList text, false⟩, ⟨0, joinLines stop⟩)

end ForcingData.Yaml
